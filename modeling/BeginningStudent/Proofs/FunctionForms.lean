import BeginningStudent.Proofs.Recovery

/-!
# The two forms of function definitions

A function is defined by a header, as in `(define (f x) body)`, or by a lambda expression, as in
`(define f (lambda (x) body))`. The checks on the two are made in different places, but they are the
same checks, up to the form that an error speaks of (`Definition.ofDefine_byLambda`). So in any
program one form can stand for the other (`function_forms_alike`).
-/

namespace BeginningStudent

/-! ### The forms -/

namespace Form

def byHeader (f : String) (ps bs : List Form) : Form :=
  .group (.keyword .define :: .group (.name f :: ps) :: bs)

def byLambda (f : String) (ps bs : List Form) : Form :=
  .group [.keyword .define, .name f, .group (.keyword .lambda :: .group ps :: bs)]

end Form

/-! ### Their parts -/

def FormPart.ofLambda : FormPart → FormPart
  | .functionVariables => .lambdaVariables
  | .variableName _ => .variableName .lambda
  | .body _ => .body .lambda
  | .onlyBody _ => .onlyBody .lambda
  | part => part

/-- The error in a lambda expression that is like the error in a header. -/
def ResolveError.ofLambda : ResolveError → ResolveError
  | .expected part found => .expected part.ofLambda found
  | .repeatedVariable _ s => .repeatedVariable .lambda s
  | e => e

namespace Form

theorem paramNames_lambda (seen : List String) (ps : List Form) :
    paramNames .lambda seen ps = (paramNames .define seen ps).mapError (·.ofLambda) := by
  fun_induction paramNames .define seen ps with
  | case1 => rfl
  | case2 seen s ps hs =>
    rw [paramNames, if_pos hs]
    rfl
  | case3 seen s ps hs ih =>
    rw [paramNames, if_neg hs, ih]
    cases paramNames .define (s :: seen) ps <;> rfl
  | case4 seen f ps hf =>
    rw [paramNames]
    · rfl
    · exact hf

theorem soleBody_lambda (bs : List Form) :
    soleBody .lambda bs = (soleBody .define bs).mapError (·.ofLambda) := by
  unfold soleBody
  split <;> rfl

theorem lambdaParts_group (ps bs : List Form) :
    lambdaParts (.group ps :: bs) = (functionParts ps bs).mapError (·.ofLambda) := by
  rw [lambdaParts, functionParts]
  by_cases hps : ps.isEmpty = true
  · rw [if_pos hps, if_pos hps]
    rfl
  · rw [if_neg hps, if_neg hps, paramNames_lambda, soleBody_lambda]
    cases paramNames .define [] ps with
    | error e => rfl
    | ok params => cases soleBody .define bs <;> rfl

end Form

namespace Definition

/-- The same checks are made on both forms, in the same order. -/
theorem ofDefine_byLambda (t : SymbolTable) (f : String) (ps bs : List Form) :
    ofDefine t [.name f, .group (.keyword .lambda :: .group ps :: bs)] =
      (ofDefine t (.group (.name f :: ps) :: bs)).mapError (·.ofLambda) := by
  have hfresh : ∀ e, t.checkFresh f = .error e → e.ofLambda = e := by
    intro e he
    unfold SymbolTable.checkFresh at he
    split at he
    · cases he
    · cases he
      split <;> rfl
  change (do t.checkFresh f; ofValue f (.group (.keyword .lambda :: .group ps :: bs))) = _
  rw [ofDefine, ofValue, Form.lambdaParts_group]
  cases hcheck : t.checkFresh f with
  | error e =>
    change .error e = Except.error e.ofLambda
    rw [hfresh e hcheck]
  | ok _ => cases Form.functionParts ps bs <;> rfl

theorem ofDefine_byHeader_iff {t : SymbolTable} {f : String} {ps bs : List Form} {d : Definition} :
    ofDefine t (.group (.name f :: ps) :: bs) = .ok d ↔
      t.lookup f = none ∧ ∃ params body, ps = params.map .name ∧ params ≠ [] ∧ params.Nodup ∧
        bs = [body] ∧ d = .function f params body := by
  rw [ofDefine, bind_ok]
  constructor
  · intro h
    obtain ⟨u, hfresh, h⟩ := h
    obtain ⟨p, hparts, h⟩ := bind_ok.mp h
    obtain ⟨params, body⟩ := p
    obtain ⟨hps, hne, hnd, hbs⟩ := Form.functionParts_iff.mp hparts
    cases h
    exact ⟨SymbolTable.checkFresh_ok hfresh, params, body, hps, hne, hnd, hbs, rfl⟩
  · intro h
    obtain ⟨hlookup, params, body, hps, hne, hnd, hbs, rfl⟩ := h
    have hfresh : t.checkFresh f = .ok () := by rw [SymbolTable.checkFresh, hlookup]
    rw [Form.functionParts_iff.mpr ⟨hps, hne, hnd, hbs⟩]
    exact ⟨(), hfresh, rfl⟩

end Definition

namespace Resolver

variable {α β : Type}

/-! ### Computations that do the same -/

/-- Two computations give the same result or both fail, and leave the same resolver. -/
def Alike (x y : Run α) : Prop :=
  ∀ r, (∃ a r', x r = .ok a r' ∧ y r = .ok a r') ∨
    ∃ e e' r', x r = .error e r' ∧ y r = .error e' r'

namespace Alike

theorem refl (x : Run α) : Alike x x := by
  intro r
  cases h : x r with
  | ok a r' => exact .inl ⟨a, r', rfl, rfl⟩
  | error e r' => exact .inr ⟨e, e, r', rfl, rfl⟩

theorem bind {x y : Run α} {g h : α → Run β} (hxy : Alike x y) (hgh : ∀ a, Alike (g a) (h a)) :
    Alike (x >>= g) (y >>= h) := by
  intro r
  rw [bind_run, bind_run]
  rcases hxy r with ⟨a, r', hx, hy⟩ | ⟨e, e', r', hx, hy⟩
  · rw [hx, hy]
    exact hgh a r'
  · rw [hx, hy]
    exact .inr ⟨e, e', r', rfl, rfl⟩

theorem ok_iff {x y : Run α} (h : Alike x y) {r r' : Resolver} {a : α} :
    x r = .ok a r' ↔ y r = .ok a r' := by
  rcases h r with ⟨b, s, hx, hy⟩ | ⟨e, e', s, hx, hy⟩
  · rw [hx, hy]
  · simp [hx, hy]

end Alike

theorem forms_cons {f : Form} (hf : f.headKeyword? ≠ some .checkExpect) (fs : List Form) :
    forms (f :: fs) = do
      let e ← form f
      let program ← forms fs
      return { program with forms := e :: program.forms } := by
  rw [forms]
  intro parts hparts
  rw [hparts] at hf
  exact hf rfl

theorem forms_alike {f g : Form} (hf : f.headKeyword? ≠ some .checkExpect)
    (hg : g.headKeyword? ≠ some .checkExpect) (h : Alike (form f) (form g))
    (before after : List Form) :
    Alike (forms (before ++ f :: after)) (forms (before ++ g :: after)) := by
  induction before with
  | nil =>
    rw [List.nil_append, List.nil_append, forms_cons hf, forms_cons hg]
    exact h.bind fun _ => .refl _
  | cons b before ih =>
    by_cases hb : b.headKeyword? = some .checkExpect
    · obtain ⟨parts, rfl⟩ : ∃ parts, b = .group (.keyword .checkExpect :: parts) := by
        unfold Form.headKeyword? at hb
        split at hb
        · cases hb
          exact ⟨_, rfl⟩
        · cases hb
      rw [List.cons_append, List.cons_append, forms, forms]
      exact .bind (.refl _) fun _ => ih.bind fun _ => .refl _
    · rw [List.cons_append, List.cons_append, forms_cons hb, forms_cons hb]
      exact .bind (.refl _) fun _ => ih.bind fun _ => .refl _

theorem program_alike {f g : Form} (hf : f.headKeyword? ≠ some .checkExpect)
    (hg : g.headKeyword? ≠ some .checkExpect) (h : Alike (form f) (form g))
    (before after : List Form) :
    Alike (program (before ++ f :: after)) (program (before ++ g :: after)) :=
  (forms_alike hf hg h before after).bind fun _ => .refl _

/-! ### The two forms -/

theorem form_byHeader_alike (f : String) (ps bs : List Form) :
    Alike (form (.byHeader f ps bs)) (form (.byLambda f ps bs)) := by
  apply Alike.bind
  · intro r
    have hparts := Definition.ofDefine_byLambda r.symbols f ps bs
    cases h : Definition.ofDefine r.symbols (.group (.name f :: ps) :: bs) with
    | error e =>
      -- The errors may differ, but neither form has registered the name yet.
      rw [h] at hparts
      refine .inr ⟨e, e.ofLambda, r, ?_, ?_⟩
      · rw [consult, h]
        rfl
      · rw [consult, hparts]
        rfl
    | ok d =>
      rw [h] at hparts
      refine .inl ⟨d, r, ?_, ?_⟩
      · rw [consult, h]
        rfl
      · rw [consult, hparts]
        rfl
  · exact fun _ => .refl _

def withFunction (r : Resolver) (f : String) (n : Nat) : Resolver :=
  { r with symbols := r.symbols.define f (.function (.exactly n)) }

theorem definition_function (r : Resolver) (f : String) (params : List String) (body : Form) :
    definition (.function f params body) r =
      settle ((fun value => .define f (.lambda ⟨f, []⟩ (some f) params value)) <$>
        body.resolve ((r.withFunction f params.length).symbols.pushParams params)
          (some (Site.part ⟨f, []⟩ 0))) (r.withFunction f params.length) := by
  let u := (r.withFunction f params.length).symbols.pushParams params
  have hbody := expression_run ⟨u, true⟩ (Site.part ⟨f, []⟩ 0) body
  exact settle_map _ (inFunction_run hbody)

/-- What it takes to define a function, and what comes of it: the name is free, the variables are
distinct names, and the one expression of the body is resolved among them and the function. -/
inductive DefinesFunction (r : Resolver) (f : String) :
    List Form → List Form → Expr → Resolver → Prop
  | intro {params body value} (hfresh : r.symbols.lookup f = none) (hne : params ≠ [])
    (hnd : params.Nodup)
    (hbody : body.resolve ((r.withFunction f params.length).symbols.pushParams params)
      (some (Site.part ⟨f, []⟩ 0)) = .ok value) :
    DefinesFunction r f (params.map .name) [body]
      (.define f (.lambda ⟨f, []⟩ (some f) params value)) (r.withFunction f params.length)

theorem form_byHeader_iff {r r' : Resolver} {f : String} {ps bs : List Form} {e : Expr} :
    form (.byHeader f ps bs) r = .ok e r' ↔ r.DefinesFunction f ps bs e r' := by
  have hrun : form (.byHeader f ps bs) r =
      match Definition.ofDefine r.symbols (.group (.name f :: ps) :: bs) with
      | .ok d => definition d r
      | .error e => .error e r := by
    rw [Form.byHeader, form, bind_run, consult]
    cases Definition.ofDefine r.symbols (.group (.name f :: ps) :: bs) <;> rfl
  rw [hrun]
  constructor
  · intro h
    split at h
    next d hd =>
      obtain ⟨hfresh, params, body, rfl, hne, hnd, rfl, rfl⟩ :=
        Definition.ofDefine_byHeader_iff.mp hd
      rw [definition_function] at h
      generalize hvalue : Form.resolve _ _ body = x at h
      cases x with
      | error e => cases h
      | ok value =>
        cases h
        exact .intro hfresh hne hnd hvalue
    next => cases h
  · intro h
    cases h with
    | intro hfresh hne hnd hbody =>
      rw [Definition.ofDefine_byHeader_iff.mpr ⟨hfresh, _, _, rfl, hne, hnd, rfl, rfl⟩]
      dsimp only
      rw [definition_function, hbody]
      rfl

/-- A function can be defined by a header or by a lambda expression: for every resolver both forms
define the same function or both fail, and they leave the same resolver. In any program either form
can stand for the other. Both succeed in the same circumstances, with the same definition. -/
theorem function_forms_alike (f : String) (ps bs : List Form) :
    Alike (form (.byHeader f ps bs)) (form (.byLambda f ps bs)) ∧
      (∀ before after, Alike (program (before ++ .byHeader f ps bs :: after))
        (program (before ++ .byLambda f ps bs :: after))) ∧
      ∀ d ∈ [Form.byHeader f ps bs, .byLambda f ps bs], ∀ r e r',
        form d r = .ok e r' ↔ r.DefinesFunction f ps bs e r' := by
  have halike := form_byHeader_alike f ps bs
  refine ⟨halike, ?_, ?_⟩
  · intro before after
    have hheader : (Form.byHeader f ps bs).headKeyword? ≠ some .checkExpect := by
      simp [Form.byHeader, Form.headKeyword?]
    have hlambda : (Form.byLambda f ps bs).headKeyword? ≠ some .checkExpect := by
      simp [Form.byLambda, Form.headKeyword?]
    exact program_alike hheader hlambda halike before after
  · intro d hd r e r'
    rcases List.mem_pair.mp hd with rfl | rfl
    · exact form_byHeader_iff
    · exact halike.ok_iff.symm.trans form_byHeader_iff

/-- The definitions `(define (f x) x)` and `(define f (lambda (x) x))` at the start. -/
theorem function_forms_alike_identity :
    let e : Expr := .define "f" (.lambda ⟨"f", []⟩ (some "f") ["x"] (.identifier "x"))
    form (.byHeader "f" [.name "x"] [.name "x"]) start = .ok e (start.withFunction "f" 1) ∧
      form (.byLambda "f" [.name "x"] [.name "x"]) start = .ok e (start.withFunction "f" 1) := by
  intro e
  obtain ⟨-, -, h⟩ := function_forms_alike "f" [.name "x"] [.name "x"]
  have hdefines : start.DefinesFunction "f" [.name "x"] [.name "x"] e
      (start.withFunction "f" 1) := by
    refine @DefinesFunction.intro start "f" ["x"] _ _ (by decide) (by decide) (by decide) ?_
    rw [Form.resolve]
    rfl
  refine ⟨(h _ ?_ _ _ _).mpr hdefines, (h _ ?_ _ _ _).mpr hdefines⟩
  · exact List.mem_pair.mpr (.inl rfl)
  · exact List.mem_pair.mpr (.inr rfl)

end Resolver
end BeginningStudent
