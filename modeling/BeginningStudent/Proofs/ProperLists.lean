import BeginningStudent.Proofs.Made
import BeginningStudent.Proofs.SourceValues

/-!
# Proper lists

Pairs are made by `cons` and `list` alone, and `cons` refuses a rest that is no list. So every pair
that a session comes to has the empty list or another pair as its rest, and the primitives on lists
agree about what a list is (`Session.pairs_proper`).
-/

namespace BeginningStudent

/-! ### Primitives on lists -/

namespace Value

/-- The primitives on lists agree about the value, wherever expressions evaluate to it. -/
structure ListLaws (v : Value) : Prop where
  /-- A list is empty or a pair. -/
  isList : ∃ isEmpty isPair, Primitive.isEmpty.apply [v] = .ok (.boolean isEmpty) ∧
    Primitive.isCons.apply [v] = .ok (.boolean isPair) ∧
    Primitive.isList.apply [v] = .ok (.boolean (isEmpty || isPair))
  /-- Expressions of the forms `(list? e)` and `(or (empty? e) (cons? e))` have the same value. -/
  disjunction : ∀ (x : Surroundings) (e list empty cons : Expr), x.eval e = .ok v →
    x.eval list = .ok (.primitive .isList) → x.eval empty = .ok (.primitive .isEmpty) →
    x.eval cons = .ok (.primitive .isCons) →
      x.eval (.call list [e]) = x.eval (.disjunction [.call empty [e], .call cons [e]])
  length : Primitive.isCons.apply [v] = .ok (.boolean true) →
    ∃ n, Primitive.length.apply [v] = .ok (.number n)
  rest : Primitive.isCons.apply [v] = .ok (.boolean true) →
    ∃ r, Primitive.rest.apply [v] = .ok r ∧ Primitive.isList.apply [r] = .ok (.boolean true)

end Value

namespace Surroundings

variable {x : Surroundings} {e callee other : Expr} {v w : Value} {p : Primitive} {a b : Bool}

theorem eval_primitive (hcallee : x.eval callee = .ok (.primitive p)) (he : x.eval e = .ok v)
    (h : p.apply [v] = .ok w) : x.eval (.call callee [e]) = .ok w := by
  rw [eval_call hcallee (evalAll_single he), Value.call.eq_def]
  dsimp only
  rw [h]
  rfl

theorem eval_branch (form : Conditional) {answer otherwise : Expr}
    (he : x.eval e = .ok (.boolean a)) :
    x.eval (.branch form e answer (some otherwise)) =
      if a then x.eval answer else x.eval otherwise := by
  unfold eval at *
  rw [Expr.eval, he]
  cases a with
  | true => rfl
  | false =>
    change Expr.evalElse _ _ (some otherwise) = _
    rw [Expr.evalElse]
    rfl

theorem eval_boolean (b : Bool) : x.eval (.boolean b) = .ok (.boolean b) := by
  rw [eval, Expr.boolean, Expr.eval, Value.ofDatum]

theorem eval_disjunction (he : x.eval e = .ok (.boolean a)) (hother : x.eval other = .ok (.boolean b)) :
    x.eval (.disjunction [e, other]) = .ok (.boolean (a || b)) := by
  change x.eval (.branch .disjunction e (.boolean true)
    (some (.branch .disjunction other (.boolean true) (some (.boolean false))))) = _
  rw [eval_branch _ he, eval_branch _ hother]
  simp only [eval_boolean]
  cases a <;> cases b <;> rfl

end Surroundings

/-! ### Values that are made as they should be -/

namespace Value

variable {S : StructType → Prop} {first rest v : Value}

theorem Made.rest_isList (h : Made S (.pair first rest)) : rest.isList = true := by
  cases h with
  | simple hv => cases hv.isFlat
  | pair _ _ hl => exact hl

theorem eq_pair_of_isList (h : v.isList = true) : v = .empty ∨ ∃ first rest, v = .pair first rest := by
  cases v with
  | empty => exact .inl rfl
  | pair first rest => exact .inr ⟨first, rest, rfl⟩
  | _ => cases h

theorem Made.isList_apply (h : v.Made S) :
    ∃ isEmpty isPair, Primitive.isEmpty.apply [v] = .ok (.boolean isEmpty) ∧
      Primitive.isCons.apply [v] = .ok (.boolean isPair) ∧
      Primitive.isList.apply [v] = .ok (.boolean (isEmpty || isPair)) := by
  refine ⟨_, _, rfl, rfl, ?_⟩
  change Except.ok (boolean v.isList) = _
  cases v with
  | pair first rest => rw [Value.isList, h.rest_isList]; rfl
  | _ => rfl

theorem pair_of_isCons (h : Primitive.isCons.apply [v] = .ok (.boolean true)) :
    ∃ first rest, v = .pair first rest := by
  cases v with
  | pair first rest => exact ⟨first, rest, rfl⟩
  | _ => cases h

theorem Made.listLaws (h : v.Made S) : v.ListLaws where
  isList := h.isList_apply
  disjunction x e list empty cons he hlist hempty hcons := by
    obtain ⟨a, b, ha, hb, hab⟩ := h.isList_apply
    rw [Surroundings.eval_primitive hlist he hab, Surroundings.eval_disjunction
      (Surroundings.eval_primitive hempty he ha) (Surroundings.eval_primitive hcons he hb)]
  length hpair := by
    obtain ⟨first, rest, rfl⟩ := pair_of_isCons hpair
    exact ⟨_, if_pos h.rest_isList⟩
  rest hpair := by
    obtain ⟨first, rest, rfl⟩ := pair_of_isCons hpair
    exact ⟨rest, rfl, congrArg (fun b => Except.ok (boolean b)) h.rest_isList⟩

end Value

/-! ### Sessions -/

namespace Session

variable {s : Session} {source : String}

theorem program?_clean {p : Program} (h : s.program? source = some p) : p.Every Expr.Clean := by
  obtain ⟨forms, names, hread, hresolve⟩ := program?_eq_some.mp h
  obtain ⟨hforms, htests⟩ := SymbolTable.resolveProgram_clean (readSource_clean hread) hresolve
  refine ⟨fun e he d hd => ?_, htests⟩
  have hclean := hforms e he
  cases hclean with
  | define hd' =>
    obtain rfl := List.mem_singleton.mp hd
    exact hd'
  | defineStruct _ => cases hd
  | _ =>
    obtain rfl := List.mem_singleton.mp hd
    exact hforms _ he

theorem Meets.made {maxDepth : Nat} {earlier : List String} {v : Value}
    (h : ((start maxDepth).run earlier).1.Meets source v) : v.Made fun _ => True := by
  have hP := made_conserved fun _ => True
  have hstruct : ∀ t : StructType, ∀ b ∈ t.bindings, b.2.Made fun _ => True :=
    fun t => t.bindings_made trivial
  obtain ⟨-, hlast, -⟩ := run_maintains (s := start maxDepth) (hP.maintains hstruct)
    (fun _ _ _ hp => (program?_clean hp).forms) (List.forall_mem_nil _) earlier
  exact h.conserved hP hstruct (fun _ => program?_clean) hlast

/-- The rest of every pair that the steps of a session come to is the empty list or again a pair,
and the primitives on lists agree about every value. -/
theorem pairs_proper (maxDepth : Nat) (earlier : List String) (source : String) :
    (∀ first rest, ((start maxDepth).run earlier).1.Meets source (.pair first rest) →
      rest = .empty ∨ ∃ first' rest', rest = .pair first' rest') ∧
    ∀ v, ((start maxDepth).run earlier).1.Meets source v → v.ListLaws :=
  ⟨fun _ _ h => Value.eq_pair_of_isList h.made.rest_isList, fun _ h => h.made.listLaws⟩

/-- A list of two elements is made of pairs. -/
theorem pairs_proper_list : ∃ first rest,
    ((start 10).run []).1.Meets "(list 1 2)" (.pair first rest) ∧
    (rest = .empty ∨ ∃ first' rest', rest = .pair first' rest') ∧
    (Value.pair first rest).ListLaws := by
  have hprinted : (((start 10).run []).1.step "(list 1 2)").2.values.any
      (fun v => (Argument.nonEmptyList v).isOk) = true := by decide +kernel
  obtain ⟨v, hv, hpair⟩ := List.any_eq_true.mp hprinted
  cases v with
  | pair first rest =>
    have hmeets : ((start 10).run []).1.Meets "(list 1 2)" (.pair first rest) := .printed hv
    obtain ⟨hrest, hlaws⟩ := pairs_proper 10 [] "(list 1 2)"
    exact ⟨first, rest, hmeets, hrest first rest hmeets, hlaws _ hmeets⟩
  | _ => cases hpair

end Session

end BeginningStudent
