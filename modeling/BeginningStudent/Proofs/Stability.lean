import BeginningStudent.Interpreter
import BeginningStudent.Proofs.Definitions

/-!
# Stability under later definitions

What has an expression keeps it when more names are known, and what has a value keeps it when more
names are defined, as long as no name changes its meaning. Errors need not stay: a name that is
missing can be defined later.
-/

namespace BeginningStudent

/-- Whenever the first result is a value, the second is the same value. -/
def Refines {ε α : Type} (x y : Except ε α) : Prop := ∀ a, x = .ok a → y = .ok a

namespace Refines

variable {ε ε' α β : Type} {x y : Except ε α}

theorem refl (x : Except ε α) : Refines x x := fun _ h => h

theorem error (e : ε) (y : Except ε α) : Refines (.error e) y := by
  intro a h
  cases h

theorem bind {f g : α → Except ε β} (hx : Refines x y) (hf : ∀ a, Refines (f a) (g a)) :
    Refines (x >>= f) (y >>= g) := by
  intro b h
  obtain ⟨a, ha, hb⟩ := bind_ok.mp h
  exact bind_ok.mpr ⟨a, hx a ha, hf a b hb⟩

theorem map {g : α → β} (hx : Refines x y) : Refines (g <$> x) (g <$> y) := by
  intro b h
  obtain ⟨a, ha, hb⟩ := map_ok.mp h
  exact map_ok.mpr ⟨a, hx a ha, hb⟩

theorem mapM {f g : α → Except ε β} {as : List α} (hf : ∀ a ∈ as, Refines (f a) (g a)) :
    Refines (as.mapM f) (as.mapM g) := by
  induction as with
  | nil => exact refl _
  | cons a as ih =>
    rw [List.mapM_cons, List.mapM_cons]
    refine (hf a List.mem_cons_self).bind fun b => ?_
    refine (ih fun a ha => hf a (List.mem_cons_of_mem _ ha)).bind fun bs => ?_
    exact refl _

end Refines

/-! ### Resolution -/

namespace SymbolTable

/-- All that the first table knows about names, the second knows as well. -/
def Within (t u : SymbolTable) : Prop := ∀ s k, t.lookup s = some k → u.lookup s = some k

variable {t u : SymbolTable}

theorem lookup_pushParams (t : SymbolTable) (params : List String) (s : String) :
    (t.pushParams params).lookup s =
      ((params.map (·, Kind.parameter)).reverse.lookup s).or (t.lookup s) := by
  rw [pushParams_eq]
  simp [lookup, findSome?_lookup, List.flatten_cons, List.lookup_append, Option.or_assoc]

theorem Within.pushParams (h : t.Within u) (params : List String) :
    (t.pushParams params).Within (u.pushParams params) := by
  intro s k hk
  rw [lookup_pushParams] at hk ⊢
  cases hp : (params.map (·, Kind.parameter)).reverse.lookup s with
  | some k' => rwa [hp] at hk
  | none =>
    rw [hp] at hk
    exact h s k hk

theorem Grows.within (h : t.Grows u) (ht : t.AtTop) : t.Within u := by
  intro s k hk
  rw [ht.lookup] at hk
  rw [(h.atTop ht).lookup]
  exact h.extends ht s k hk

theorem reference_refines (h : t.Within u) (s : String) :
    Refines (t.reference s) (u.reference s) := by
  unfold reference
  cases hk : t.lookup s with
  | none => exact .error _ _
  | some k =>
    rw [h s k hk]
    exact .refl _

theorem checkCall_refines (h : t.Within u) (s : String) (n : Nat) :
    Refines (t.checkCall s n) (u.checkCall s n) := by
  unfold checkCall
  cases hk : t.lookup s with
  | none => exact .error _ _
  | some k =>
    rw [h s k hk]
    exact .refl _

end SymbolTable

namespace Form

mutual

theorem resolve_refines {t u : SymbolTable} (h : t.Within u) (site : Option Site) (f : Form) :
    Refines (f.resolve t site) (f.resolve u site) := by
  match f with
  | .number _ | .string _ | .boolean _ | .keyword _ | .group [] =>
    rw [resolve, resolve]
    exact .refl _
  | .name s =>
    rw [resolve, resolve]
    exact SymbolTable.reference_refines h s
  | .group (.keyword k :: parts) =>
    rw [resolve, resolve]
    exact resolveSpecial_refines h site k parts
  | .group (.name s :: arguments) =>
    rw [resolve, resolve]
    refine (SymbolTable.checkCall_refines h s arguments.length).bind fun _ => ?_
    refine (resolveAll_refines h site 0 arguments).bind fun es => ?_
    exact .refl _
  | .group (.group _ :: _) | .group (.number _ :: _) | .group (.string _ :: _)
  | .group (.boolean _ :: _) =>
    rw [resolve]
    · exact .error _ _
    all_goals simp
termination_by 2 * sizeOf f

theorem resolveSpecial_refines {t u : SymbolTable} (h : t.Within u) (site : Option Site)
    (k : Keyword) (parts : List Form) :
    Refines (resolveSpecial t site k parts) (resolveSpecial u site k parts) := by
  match k with
  | .define | .defineStruct | .checkExpect | .elseClause | .quote =>
    rw [resolveSpecial, resolveSpecial]
    exact .refl _
  | .lambda =>
    -- The taking apart of the parameters does not look at the table.
    cases site with
    | none =>
      rw [resolveSpecial, resolveSpecial]
      exact .refl _
    | some s =>
      cases hl : lambdaParts parts with
      | error e =>
        rw [resolveSpecial_lambda_error hl, resolveSpecial_lambda_error hl]
        exact .refl _
      | ok p =>
        obtain ⟨params, body⟩ := p
        have hsize := sizeOf_of_lambdaParts hl
        rw [resolveSpecial_lambda hl, resolveSpecial_lambda hl]
        refine (resolve_refines (h.pushParams params) _ body).bind fun e => ?_
        exact .refl _
  | .ifElse =>
    match parts with
    | [question, answer, otherwise] =>
      rw [resolveSpecial, resolveSpecial]
      refine (resolve_refines h _ question).bind fun q => ?_
      refine (resolve_refines h _ answer).bind fun a => ?_
      refine (resolve_refines h _ otherwise).bind fun o => ?_
      exact .refl _
    | [] | [_] | [_, _] | _ :: _ :: _ :: _ :: _ =>
      rw [resolveSpecial]
      · exact .error _ _
      · simp
  | .cond =>
    match parts with
    | [] =>
      rw [resolveSpecial]
      exact .error _ _
    | clause :: clauses =>
      rw [resolveSpecial_cond (List.cons_ne_nil _ _), resolveSpecial_cond (List.cons_ne_nil _ _)]
      refine (resolveClauses_refines h site 0 (clause :: clauses)).bind fun r => ?_
      exact .refl _
  | .conjunction | .disjunction =>
    rw [resolveSpecial, resolveSpecial]
    split
    · exact (resolveAll_refines h site 0 parts).map
    · exact .refl _
termination_by 2 * sizeOf parts + 1

theorem resolveAll_refines {t u : SymbolTable} (h : t.Within u) (site : Option Site) (i : Nat)
    (fs : List Form) : Refines (resolveAll t site i fs) (resolveAll u site i fs) := by
  match fs with
  | [] =>
    rw [resolveAll, resolveAll]
    exact .refl _
  | f :: rest =>
    rw [resolveAll, resolveAll]
    refine (resolve_refines h _ f).bind fun e => ?_
    refine (resolveAll_refines h site (i + 1) rest).bind fun es => ?_
    exact .refl _
termination_by 2 * sizeOf fs

theorem resolveClauses_refines {t u : SymbolTable} (h : t.Within u) (site : Option Site) (i : Nat)
    (clauses : List Form) :
    Refines (resolveClauses t site i clauses) (resolveClauses u site i clauses) := by
  match clauses with
  | [] =>
    rw [resolveClauses, resolveClauses]
    exact .refl _
  | .group [question, answer] :: rest =>
    by_cases hq : question = .keyword .elseClause
    · subst hq
      rw [resolveClauses, resolveClauses]
      split
      · refine (resolve_refines h _ answer).bind fun a => ?_
        exact .refl _
      · exact .refl _
    · rw [resolveClauses_question hq, resolveClauses_question hq]
      refine (resolve_refines h _ question).bind fun q => ?_
      refine (resolve_refines h _ answer).bind fun a => ?_
      refine (resolveClauses_refines h site (i + 1) rest).bind fun r => ?_
      exact .refl _
  | .group [] :: _ | .group [_] :: _ | .group (_ :: _ :: _ :: _) :: _ | .name _ :: _
  | .keyword _ :: _ | .number _ :: _ | .string _ :: _ | .boolean _ :: _ =>
    rw [resolveClauses]
    · exact .error _ _
    all_goals simp
termination_by 2 * sizeOf clauses

end

end Form

theorem SymbolTable.resolveTest_refines {t u : SymbolTable} (h : t.Within u) (test : Form × Form) :
    Refines (t.resolveTest test) (u.resolveTest test) := by
  refine (Form.resolve_refines h none test.1).bind fun actual => ?_
  refine (Form.resolve_refines h none test.2).bind fun expected => ?_
  exact .refl _

/-! ### Evaluation -/

namespace Bindings

/-- Every name that has a value at the top level of the first definitions has the same value at
that of the second. -/
def Within (globals globals' : Bindings) : Prop :=
  ∀ s v, (Environment.mk globals []).lookup s = some v →
    (Environment.mk globals' []).lookup s = some v

theorem Within.lookup {globals globals' : Bindings} (h : globals.Within globals')
    {locals : Bindings} {s : String} {v : Value}
    (hv : (Environment.mk globals locals).lookup s = some v) :
    (Environment.mk globals' locals).lookup s = some v := by
  have htop := h s v
  simp only [Environment.lookup] at hv htop ⊢
  cases hl : locals.lookup s with
  | some w => simpa [hl] using hv
  | none =>
    rw [hl] at hv
    exact htop hv

end Bindings

namespace Expr

variable {call call' : Caller} {globals globals' : Bindings}

mutual

/-- The values of names, and what calls give, decide the value of an expression. -/
theorem eval_refines (hcall : ∀ v args, Refines (call v args) (call' v args))
    (h : globals.Within globals') (locals : Bindings) (e : Expr) :
    Refines (e.eval call ⟨globals, locals⟩) (e.eval call' ⟨globals', locals⟩) := by
  match e with
  | .literal _ | .quoted _ | .lambda _ _ _ _ | .define _ _ | .defineStruct _ _ => exact .refl _
  | .identifier s =>
    rw [eval, eval]
    cases hv : (Environment.mk globals locals).lookup s with
    | none => exact .error _ _
    | some v =>
      rw [h.lookup hv]
      exact .refl _
  | .call callee arguments =>
    rw [eval, eval]
    refine (eval_refines hcall h locals callee).bind fun procedure => ?_
    exact (evalAll_refines hcall h locals arguments).bind fun args => hcall procedure args
  | .branch form question answer otherwise =>
    rw [eval, eval]
    refine (eval_refines hcall h locals question).bind fun v => ?_
    split
    · exact eval_refines hcall h locals answer
    · exact evalElse_refines hcall h locals otherwise
    · exact .refl _

theorem evalAll_refines (hcall : ∀ v args, Refines (call v args) (call' v args))
    (h : globals.Within globals') (locals : Bindings) (es : List Expr) :
    Refines (evalAll call ⟨globals, locals⟩ es) (evalAll call' ⟨globals', locals⟩ es) := by
  match es with
  | [] => exact .refl _
  | e :: rest =>
    rw [evalAll, evalAll]
    refine (eval_refines hcall h locals e).bind fun v => ?_
    refine (evalAll_refines hcall h locals rest).bind fun vs => ?_
    exact .refl _

theorem evalElse_refines (hcall : ∀ v args, Refines (call v args) (call' v args))
    (h : globals.Within globals') (locals : Bindings) (otherwise : Option Expr) :
    Refines (evalElse call ⟨globals, locals⟩ otherwise)
      (evalElse call' ⟨globals', locals⟩ otherwise) := by
  match otherwise with
  | none => exact .refl _
  | some e =>
    rw [evalElse, evalElse]
    exact eval_refines hcall h locals e

end

end Expr

/-- Calls nest the same way, so the bound on their depth is reached at the same place. -/
theorem Value.call_refines {globals globals' : Bindings} (h : globals.Within globals')
    (depth : Nat) (v : Value) (args : List Value) :
    Refines (call globals depth v args) (call globals' depth v args) := by
  induction depth using Nat.strongRecOn generalizing v args with
  | ind depth ih =>
    rw [call.eq_def globals, call.eq_def globals']
    cases v with
    | closure code held =>
      cases held with
      | environment i => exact .refl _
      | bindings locals =>
        dsimp only
        split
        · cases depth with
          | zero => exact .refl _
          | succ depth =>
            simp only [atLevel_eq]
            exact Expr.eval_refines (fun v args => ih depth (Nat.lt_succ_self depth) v args) h _ _
        · exact .refl _
    | _ => exact .refl _

namespace Interpreter

variable {m m' : Interpreter}

theorem eval_refines (h : m.globals.Within m'.globals) (hd : m'.maxDepth = m.maxDepth) (e : Expr) :
    Refines (m.eval e) (m'.eval e) := by
  rw [eval, eval, hd]
  exact Expr.eval_refines (Value.call_refines h m.maxDepth) h [] e

theorem runTest_refines (h : m.globals.Within m'.globals) (hd : m'.maxDepth = m.maxDepth)
    (c : TestCase) : Refines (m.runTest c) (m'.runTest c) := by
  refine (eval_refines h hd c.actual).bind fun actual => ?_
  refine (eval_refines h hd c.expected).bind fun expected => ?_
  exact .refl _

end Interpreter
end BeginningStudent
