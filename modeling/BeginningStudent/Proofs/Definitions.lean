import BeginningStudent.Proofs.Resolved

/-!
# What definitions register

Resolution changes the table of the top level only by defining fresh names (`Grows`), whether it
succeeds or fails. `Registers t u e` says how a resolved form `e` of the top level leads from the
table `t` to the table `u`, and what has been checked about its expressions.
-/

namespace BeginningStudent

def Scope.NoBuiltin (top : Scope) : Prop := ∀ s k, top.lookup s = some k → Kind.ofBuiltin? s = none

namespace SymbolTable

/-- The second table comes from the first by definitions of fresh names, one after the other. -/
inductive Grows (t : SymbolTable) : SymbolTable → Prop
  | refl : Grows t t
  | define {u s k} (h : Grows t u) (hs : u.lookup s = none) : Grows t (u.define s k)

variable {t u : SymbolTable} {s : String} {k : Kind}

/-! ### The top level -/

/-- No scope is entered inside the top level. -/
def AtTop (t : SymbolTable) : Prop := t.inner = []

theorem atTop_empty : empty.AtTop := rfl

theorem AtTop.params (ht : t.AtTop) : t.params = [] := by
  rw [SymbolTable.params, ht]
  rfl

theorem AtTop.onlyParams (ht : t.AtTop) : t.OnlyParams := by
  rw [OnlyParams, ht]
  simp

theorem AtTop.lookup (ht : t.AtTop) (s : String) : t.lookup s = t.top.kind? s :=
  lookup_top (by simp [ht.params])

theorem AtTop.define (ht : t.AtTop) : t.define s k = ⟨[], (s, k) :: t.top⟩ := by
  rw [SymbolTable.define, ht]

/-! ### Tables that grow -/

theorem Grows.trans {v : SymbolTable} (htu : t.Grows u) (huv : u.Grows v) : t.Grows v := by
  induction huv with
  | refl => exact htu
  | define _ hs ih => exact ih.define hs

theorem Grows.atTop (h : t.Grows u) (ht : t.AtTop) : u.AtTop := by
  induction h with
  | refl => exact ht
  | define _ _ ih =>
    rw [ih.define]
    rfl

theorem extends_define (ht : t.AtTop) (hs : t.lookup s = none) :
    (t.define s k).top.Extends t.top := by
  intro s' k' hk'
  have hne : s' ≠ s := by
    rintro rfl
    rw [ht.lookup, hk'] at hs
    cases hs
  have hb : (s' == s) = false := by simpa using hne
  rw [ht.define, Scope.kind?, List.lookup_cons, hb]
  exact hk'

theorem Grows.extends (h : t.Grows u) (ht : t.AtTop) : u.top.Extends t.top := by
  induction h with
  | refl => exact fun _ _ hk => hk
  | define h hs ih => exact fun s k hk => extends_define (h.atTop ht) hs s k (ih s k hk)

theorem Grows.lookup_top (h : t.Grows u) (ht : t.AtTop) {s : String} {k : Kind}
    (hk : t.top.lookup s = some k) : u.top.lookup s = some k := by
  induction h with
  | refl => exact hk
  | @define u s' k' h hs' ih =>
    have hu := h.atTop ht
    have hne : (s == s') = false := by
      have hsome := ih
      rw [beq_eq_false_iff_ne]
      rintro rfl
      rw [hu.lookup, Scope.kind?, hsome] at hs'
      cases hs'
    rw [hu.define, List.lookup_cons, hne]
    exact ih

theorem ofBuiltin?_of_fresh (ht : t.AtTop) (hs : t.lookup s = none) : Kind.ofBuiltin? s = none := by
  rw [ht.lookup, Scope.kind?] at hs
  simp_all

theorem Grows.noBuiltin (h : t.Grows u) (ht : t.AtTop) (hb : t.top.NoBuiltin) :
    u.top.NoBuiltin := by
  induction h with
  | refl => exact hb
  | @define u s k h hs ih =>
    intro s' k' hk'
    rw [(h.atTop ht).define, List.lookup_cons] at hk'
    split at hk'
    · rename_i heq
      obtain rfl : s' = s := by simpa using heq
      exact ofBuiltin?_of_fresh (h.atTop ht) hs
    · exact ih s' k' hk'

/-! ### Checks before a definition -/

theorem checkFresh_ok {x : Unit} (h : t.checkFresh s = .ok x) : t.lookup s = none := by
  unfold checkFresh at h
  split at h
  · assumption
  · cases h

theorem declare_grows (names : Scope) (t : SymbolTable) : t.Grows (t.declare names).1 := by
  induction names generalizing t with
  | nil => exact .refl
  | cons b names ih =>
    obtain ⟨s, k⟩ := b
    rw [declare]
    split
    · exact .refl
    · exact Grows.trans (.define .refl (checkFresh_ok ‹_›)) (ih _)

end SymbolTable

/-! ### Definitions -/

namespace Definition

/-- What is checked about a definition before its names are registered. The names of a structure
are checked one by one while they are. -/
def Checked (t : SymbolTable) : Definition → Prop
  | .value s _ => t.lookup s = none
  | .function s params _ => t.lookup s = none ∧ params ≠ [] ∧ params.Nodup
  | .struct _ _ => True

variable {t u : SymbolTable} {d : Definition}

theorem ofValue_checked {s : String} {f : Form} (hs : t.lookup s = none) (h : ofValue s f = .ok d) :
    d.Checked t := by
  unfold ofValue at h
  split at h
  · obtain ⟨⟨params, body⟩, hparts, h⟩ := bind_ok.mp h
    cases h
    exact ⟨hs, Form.lambdaParts_ok hparts⟩
  · cases h
    exact hs

theorem ofDefine_checked {parts : List Form} (h : ofDefine t parts = .ok d) : d.Checked t := by
  unfold ofDefine at h
  split at h
  · obtain ⟨_, hfresh, h⟩ := bind_ok.mp h
    obtain ⟨f, _, h⟩ := bind_ok.mp h
    exact ofValue_checked (SymbolTable.checkFresh_ok hfresh) h
  · obtain ⟨_, hfresh, h⟩ := bind_ok.mp h
    obtain ⟨⟨params, body⟩, hparts, h⟩ := bind_ok.mp h
    cases h
    obtain ⟨-, hne, hnd, -⟩ := Form.functionParts_iff.mp hparts
    exact ⟨SymbolTable.checkFresh_ok hfresh, hne, hnd⟩
  · cases h
  · cases h

theorem ofDefineStruct_checked {parts : List Form} (h : ofDefineStruct parts = .ok d) :
    d.Checked t := by
  unfold ofDefineStruct at h
  split at h
  · obtain ⟨fields, _, h⟩ := bind_ok.mp h
    split at h
    · cases h
      trivial
    · cases h
  · cases h
  · cases h

theorem resolve_grows (hd : d.Checked t) : t.Grows (d.resolve t).1 := by
  cases d with
  | value s f =>
    rw [resolve]
    split
    · exact .refl
    · exact .define .refl hd
  | function s params body => exact .define .refl hd.1
  | struct s fields =>
    have h := SymbolTable.declare_grows (structNames s fields) t
    rcases hd : t.declare (structNames s fields) with ⟨u, r⟩
    rw [hd] at h
    simpa only [resolve, hd] using h

end Definition

/-! ### Forms of the top level -/

/-- How the resolved form of the top level changes the table, and what has been checked about it. -/
inductive Registers (t : SymbolTable) : SymbolTable → Expr → Prop
  | value {s e} (hs : t.lookup s = none) (he : e.Resolved t.top []) :
    Registers t (t.define s .value) (.define s e)
  | function {s params body} (hs : t.lookup s = none) (hne : params ≠ []) (hnd : params.Nodup)
    (hb : body.Resolved (t.define s (.function (.exactly params.length))).top params.reverse) :
    Registers t (t.define s (.function (.exactly params.length)))
      (.define s (.lambda ⟨s, []⟩ (some s) params body))
  | struct {u s fields} (hu : t.declare (Definition.structNames s fields) = (u, .ok ())) :
    Registers t u (.defineStruct s fields)
  | expression {e} (he : e.Resolved t.top []) : Registers t t e

inductive RegistersAll : SymbolTable → SymbolTable → List Expr → Prop
  | nil {t} : RegistersAll t t []
  | cons {t u v e es} (he : Registers t u e) (hes : RegistersAll u v es) :
    RegistersAll t v (e :: es)

theorem Registers.grows {t u : SymbolTable} {e : Expr} (h : Registers t u e) : t.Grows u := by
  cases h with
  | value hs _ => exact .define .refl hs
  | function hs _ _ _ => exact .define .refl hs
  | @struct _ s fields hu =>
    have h := SymbolTable.declare_grows (Definition.structNames s fields) t
    rwa [hu] at h
  | expression _ => exact .refl

theorem RegistersAll.grows {t u : SymbolTable} {es : List Expr} (h : RegistersAll t u es) :
    t.Grows u := by
  induction h with
  | nil => exact .refl
  | cons he _ ih => exact he.grows.trans ih

namespace Form

theorem resolve_resolved {t : SymbolTable} {f : Form} {e : Expr} (ht : t.AtTop)
    (h : f.resolve t none = .ok e) : e.Resolved t.top [] := by
  have hsite : SiteFits t none := fun h => absurd rfl h
  have hy := resolve_yields ht.onlyParams hsite f
  rwa [h, ht.params] at hy

theorem resolve_body {t : SymbolTable} {site : Option Site} {params : List String} {f : Form}
    {e : Expr} (ht : t.AtTop) (hne : params ≠ [])
    (h : f.resolve (t.pushParams params) site = .ok e) : e.Resolved t.top params.reverse := by
  have hy := resolve_yields (ht.onlyParams.pushParams params) (SiteFits.body hne site) f
  rwa [h, SymbolTable.pushParams_top, SymbolTable.params_pushParams, ht.params,
    List.append_nil] at hy

end Form

namespace Definition

theorem resolve_registers {t u : SymbolTable} {d : Definition} {e : Expr} (ht : t.AtTop)
    (hd : d.Checked t) (h : d.resolve t = (u, .ok e)) : Registers t u e := by
  cases d with
  | value s f =>
    rw [resolve] at h
    split at h
    · cases h
    · cases h
      exact .value hd (Form.resolve_resolved ht ‹_›)
  | function s params body =>
    obtain ⟨hs, hne, hnd⟩ := hd
    obtain ⟨rfl, hbody⟩ := Prod.mk.inj h
    obtain ⟨b, hb, rfl⟩ := map_ok.mp hbody
    have hgrow : t.Grows (t.define s (.function (.exactly params.length))) := .define .refl hs
    exact .function hs hne hnd (Form.resolve_body (hgrow.atTop ht) hne hb)
  | struct s fields =>
    rcases hd : t.declare (structNames s fields) with ⟨v, e' | ⟨⟨⟩⟩⟩
    · simp [resolve, hd, Except.map] at h
    · simp only [resolve, hd, Except.map, Prod.mk.injEq, Except.ok.injEq] at h
      obtain ⟨rfl, rfl⟩ := h
      exact .struct hd

end Definition

def SplitProgram.append (p q : SplitProgram) : SplitProgram :=
  ⟨p.forms ++ q.forms, p.tests ++ q.tests⟩

namespace SymbolTable

variable {t u : SymbolTable}

theorem resolveForm_grows (t : SymbolTable) (f : Form) : t.Grows (t.resolveForm f).1 := by
  unfold resolveForm
  split
  · split
    · exact .refl
    · exact Definition.resolve_grows (Definition.ofDefine_checked ‹_›)
  · split
    · exact .refl
    · exact Definition.resolve_grows (Definition.ofDefineStruct_checked ‹_›)
  · exact .refl

theorem resolveForm_registers {f : Form} {e : Expr} (ht : t.AtTop)
    (h : t.resolveForm f = (u, .ok e)) : Registers t u e := by
  unfold resolveForm at h
  split at h
  · split at h
    · cases h
    · exact Definition.resolve_registers ht (Definition.ofDefine_checked ‹_›) h
  · split at h
    · cases h
    · exact Definition.resolve_registers ht (Definition.ofDefineStruct_checked ‹_›) h
  · obtain ⟨rfl, he⟩ := Prod.mk.inj h
    exact .expression (Form.resolve_resolved ht he)

/-! ### Programs -/

theorem resolveForms_append_error {fs : List Form} {e : ResolveError}
    (h : t.resolveForms fs = (u, .error e)) (gs : List Form) :
    t.resolveForms (fs ++ gs) = (u, .error e) := by
  fun_induction resolveForms t fs with
  | case1 => simp at h
  | case2 t parts fs e' hparts =>
    rw [List.cons_append, resolveForms, hparts]
    exact h
  | case3 t parts fs test hparts v r hr ih =>
    obtain ⟨rfl, hp⟩ := Prod.mk.inj h
    cases r with
    | ok q => cases hp
    | error e' =>
      cases hp
      rw [List.cons_append, resolveForms, hparts]
      simp only [ih hr, Except.map]
  | case4 t f fs hf v e' hform =>
    rw [List.cons_append, resolveForms]
    · rw [hform]
      exact h
    · exact hf
  | case5 t f fs hf v e' hform w r hr ih =>
    obtain ⟨rfl, hp⟩ := Prod.mk.inj h
    cases r with
    | ok q => cases hp
    | error e' =>
      cases hp
      rw [List.cons_append, resolveForms]
      · rw [hform]
        simp only [ih hr, Except.map]
      · exact hf

theorem resolveForms_append_ok {fs : List Form} {p : SplitProgram}
    (h : t.resolveForms fs = (u, .ok p)) (gs : List Form) :
    t.resolveForms (fs ++ gs) = ((u.resolveForms gs).1, (u.resolveForms gs).2.map p.append) := by
  fun_induction resolveForms t fs generalizing p with
  | case1 t =>
    cases h
    rw [List.nil_append]
    rcases u.resolveForms gs with ⟨v, _ | q⟩ <;> rfl
  | case2 | case4 => simp at h
  | case3 t parts fs test hparts v r hr ih =>
    obtain ⟨rfl, hp⟩ := Prod.mk.inj h
    obtain ⟨q, rfl, rfl⟩ := map_ok.mp hp
    rw [List.cons_append, resolveForms, hparts]
    simp only [ih hr]
    cases (v.resolveForms gs).2 <;> rfl
  | case5 t f fs hf v e' hform w r hr ih =>
    obtain ⟨rfl, hp⟩ := Prod.mk.inj h
    obtain ⟨q, rfl, rfl⟩ := map_ok.mp hp
    rw [List.cons_append, resolveForms]
    · rw [hform]
      simp only [ih hr]
      cases (w.resolveForms gs).2 <;> rfl
    · exact hf

theorem resolveForms_grows (t : SymbolTable) (fs : List Form) : t.Grows (t.resolveForms fs).1 := by
  fun_induction resolveForms t fs with
  | case1 | case2 => exact .refl
  | case3 t parts fs test _ u r hr ih =>
    rw [hr] at ih
    exact ih
  | case4 t f fs _ u e hf =>
    have h := t.resolveForm_grows f
    rwa [hf] at h
  | case5 t f fs _ u e hf v r hr ih =>
    have h := t.resolveForm_grows f
    rw [hf] at h
    rw [hr] at ih
    exact h.trans ih

theorem resolveForms_registers {fs : List Form} {p : SplitProgram} (ht : t.AtTop)
    (h : t.resolveForms fs = (u, .ok p)) : RegistersAll t u p.forms := by
  fun_induction resolveForms t fs generalizing p with
  | case1 t =>
    cases h
    exact .nil
  | case2 | case4 => simp at h
  | case3 t parts fs test _ v r hr ih =>
    obtain ⟨rfl, hp⟩ := Prod.mk.inj h
    obtain ⟨q, rfl, rfl⟩ := map_ok.mp hp
    have hall := ih ht hr
    exact hall
  | case5 t f fs _ v e hf w r hr ih =>
    obtain ⟨rfl, hp⟩ := Prod.mk.inj h
    obtain ⟨q, rfl, rfl⟩ := map_ok.mp hp
    have he := resolveForm_registers ht hf
    exact .cons he (ih (he.grows.atTop ht) hr)

theorem resolveProgram_grows (t : SymbolTable) (fs : List Form) :
    t.Grows (t.resolveProgram fs).1 := by
  have h := t.resolveForms_grows fs
  unfold resolveProgram
  split <;> simp_all

theorem resolveTest_resolved {test : Form × Form} {c : TestCase} (ht : t.AtTop)
    (h : t.resolveTest test = .ok c) :
    c.actual.Resolved t.top [] ∧ c.expected.Resolved t.top [] := by
  obtain ⟨actual, hactual, h⟩ := bind_ok.mp h
  obtain ⟨expected, hexpected, h⟩ := bind_ok.mp h
  cases h
  exact ⟨Form.resolve_resolved ht hactual, Form.resolve_resolved ht hexpected⟩

theorem resolveProgram_ok {fs : List Form} {p : Program} (ht : t.AtTop)
    (h : t.resolveProgram fs = (u, .ok p)) :
    RegistersAll t u p.forms ∧
      ∀ c ∈ p.tests, c.actual.Resolved u.top [] ∧ c.expected.Resolved u.top [] := by
  unfold resolveProgram at h
  rcases hf : t.resolveForms fs with ⟨v, e | q⟩
  · simp [hf] at h
  · rw [hf] at h
    obtain ⟨rfl, hp⟩ := Prod.mk.inj h
    obtain ⟨tests, htests, rfl⟩ := map_ok.mp hp
    have hall := resolveForms_registers ht hf
    refine ⟨hall, fun c hc => ?_⟩
    obtain ⟨test, -, hc⟩ := mem_of_mapM_ok htests hc
    exact resolveTest_resolved (hall.grows.atTop ht) hc

end SymbolTable
end BeginningStudent
