import BeginningStudent.Error
import BeginningStudent.Proofs.Evaluation

/-!
# Runs of programs

The symbol table and the definitions of the top level are built by different stages. `Leads` says
how they stay together along a run: the definitions fit their names at all times, and only a run
that ends in an error leaves a name registered that it has not defined.
-/

namespace BeginningStudent

/-! ### Names and definitions side by side -/

variable {t u : SymbolTable} {top : Scope} {globals : Bindings} {s : String} {k : Kind} {v : Value}

/-- Names that are registered and not yet defined leave the definitions fitting. -/
theorem Fits.grows (h : Fits t.top globals) (ht : t.AtTop) (hg : t.Grows u) :
    Fits u.top globals where
  wellFormed b hb := (h.wellFormed b hb).mono (hg.extends ht)
  suits s v hv := by
    obtain ⟨k, hk, hs⟩ := h.suits s v hv
    exact ⟨k, hg.lookup_top ht hk, hs⟩
  noBuiltin := hg.noBuiltin ht h.noBuiltin

theorem Fits.bind (h : Fits top globals) (hk : top.lookup s = some k) (hv : v.WellFormed top)
    (hs : k.Suits v) : Fits top ((s, v) :: globals) where
  wellFormed b hb := by
    rcases List.mem_cons.mp hb with rfl | hb
    · exact hv
    · exact h.wellFormed b hb
  suits s' v' hv' := by
    rw [List.lookup_cons] at hv'
    split at hv'
    · rename_i heq
      obtain rfl : s' = s := by simpa using heq
      cases hv'
      exact ⟨k, hk, hs⟩
    · exact h.suits s' v' hv'
  noBuiltin := h.noBuiltin

theorem Fits.lookup_eq_none (h : Fits t.top globals) (ht : t.AtTop) (hs : t.lookup s = none) :
    globals.lookup s = none := by
  cases hg : globals.lookup s with
  | none => rfl
  | some v =>
    obtain ⟨k, hk, -⟩ := h.suits s v hg
    rw [ht.lookup, Scope.kind?, hk] at hs
    cases hs

/-- How a run leads from names and definitions to later ones, and what is known about the error
that ends it. -/
structure Leads (top : Scope) (globals : Bindings) (top' : Scope) (globals' : Bindings)
    (err : Option Error) : Prop where
  fits : Fits top' globals'
  keeps : ∀ s v, globals.lookup s = some v → globals'.lookup s = some v
  missing : err = none → ∀ s, Missing top' globals' s → Missing top globals s
  allowed : ∀ e, err = some (.eval e) → e.Allowed (Missing top globals)

theorem EvalError.Allowed.mono {P Q : String → Prop} {e : EvalError} (he : e.Allowed P)
    (h : ∀ s, P s → Q s) : e.Allowed Q := by
  cases e with
  | unbound s => exact h s he
  | _ => exact he

namespace Leads

variable {top' top'' : Scope} {globals' globals'' : Bindings} {err : Option Error}

theorem refl (h : Fits top globals) : Leads top globals top globals none where
  fits := h
  keeps _ _ hv := hv
  missing _ _ hs := hs
  allowed := by simp

theorem trans (h : Leads top globals top' globals' none)
    (h' : Leads top' globals' top'' globals'' err) : Leads top globals top'' globals'' err where
  fits := h'.fits
  keeps s v hv := h'.keeps s v (h.keeps s v hv)
  missing he s hs := h.missing rfl s (h'.missing he s hs)
  allowed e he := (h'.allowed e he).mono (h.missing rfl)

theorem fail {e : Error} (h : Fits top globals)
    (he : ∀ e', e = .eval e' → e'.Allowed (Missing top globals)) :
    Leads top globals top globals (some e) where
  fits := h
  keeps _ _ hv := hv
  missing hnone := by cases hnone
  allowed e' he' := he e' (Option.some.inj he')

theorem grows {e : Error} (h : Leads top globals t.top globals' (some e)) (ht : t.AtTop)
    (hg : t.Grows u) : Leads top globals u.top globals' (some e) where
  fits := h.fits.grows ht hg
  keeps := h.keeps
  missing hnone := by cases hnone
  allowed := h.allowed

theorem define (h : Fits t.top globals) (ht : t.AtTop) (hs : t.lookup s = none)
    (hv : v.WellFormed (t.define s k).top) (hk : k.Suits v) :
    Leads t.top globals (t.define s k).top ((s, v) :: globals) none where
  fits := (h.grows ht (.define .refl hs)).bind (by simp [ht.define]) hv hk
  keeps s' v' hv' := by
    have hne : s' ≠ s := by
      rintro rfl
      rw [h.lookup_eq_none ht hs] at hv'
      cases hv'
    rwa [List.lookup_cons, beq_eq_false_iff_ne.mpr hne]
  missing _ s' hs' := by
    obtain ⟨hreg, hdef⟩ := hs'
    by_cases hne : s' = s
    · simp [hne] at hdef
    · rw [List.lookup_cons, beq_eq_false_iff_ne.mpr hne] at hdef
      rw [ht.define, List.lookup_cons, beq_eq_false_iff_ne.mpr hne] at hreg
      exact ⟨hreg, hdef⟩
  allowed := by simp

end Leads

/-! ### Structures -/

theorem Leads.declare {rows : List (String × Kind × Value)} (h : Fits t.top globals) (ht : t.AtTop)
    (hd : t.declare (rows.map fun r => (r.1, r.2.1)) = (u, .ok ()))
    (hrows : ∀ r ∈ rows, (∀ top, r.2.2.WellFormed top) ∧ r.2.1.Suits r.2.2) :
    Leads t.top globals u.top ((rows.map fun r => (r.1, r.2.2)).reverse ++ globals) none := by
  induction rows generalizing t globals with
  | nil =>
    cases hd
    exact .refl h
  | cons r rows ih =>
    obtain ⟨s, k, v⟩ := r
    obtain ⟨hv, hk⟩ := hrows (s, k, v) List.mem_cons_self
    rw [List.map_cons, SymbolTable.declare] at hd
    split at hd
    · cases hd
    have hfresh : t.lookup s = none := SymbolTable.checkFresh_ok ‹_›
    have hgrow : t.Grows (t.define s k) := .define .refl hfresh
    have hfirst := Leads.define h ht hfresh (hv _) hk
    have hrest := ih hfirst.fits (hgrow.atTop ht) hd fun r hr => hrows r (List.mem_cons_of_mem _ hr)
    simpa using hfirst.trans hrest

namespace StructType

def rows (t : StructType) : List (String × Kind × Value) :=
  (t.name, .structType, .structType t) ::
    (t.constructorName, .function (.exactly t.fields.length), .constructor t) ::
    (t.predicateName, .function (.exactly 1), .predicate t) ::
    t.fields.mapIdx fun i field => (t.accessorName field, .function (.exactly 1), .accessor t i)

theorem rows_names (t : StructType) :
    (t.rows.map fun r => (r.1, r.2.1)) = Definition.structNames t.name t.fields := by
  have haccessors : ((t.fields.mapIdx fun i field =>
      (t.accessorName field, Kind.function (.exactly 1), Value.accessor t i)).map
        fun r => (r.1, r.2.1)) =
      t.fields.map fun field => (t.accessorName field, Kind.function (.exactly 1)) := by
    apply List.ext_getElem <;> simp
  simp only [rows, List.map_cons, haccessors]
  rfl

theorem rows_bindings (t : StructType) : (t.rows.map fun r => (r.1, r.2.2)) = t.bindings := by
  have haccessors : ((t.fields.mapIdx fun i field =>
      (t.accessorName field, Kind.function (.exactly 1), Value.accessor t i)).map
        fun r => (r.1, r.2.2)) =
      t.fields.mapIdx fun i field => (t.accessorName field, Value.accessor t i) := by
    apply List.ext_getElem <;> simp
  simp only [rows, List.map_cons, haccessors]
  rfl

theorem rows_suit (t : StructType) :
    ∀ r ∈ t.rows, (∀ top, r.2.2.WellFormed top) ∧ r.2.1.Suits r.2.2 := by
  intro r hr
  simp only [rows, List.mem_cons, List.mem_mapIdx] at hr
  rcases hr with rfl | rfl | rfl | ⟨i, hi, rfl⟩
  · exact ⟨fun _ => .structType, fun n hn => by cases hn⟩
  · exact ⟨fun _ => .constructor, fun n hn => hn⟩
  · exact ⟨fun _ => .predicate, fun n hn => hn⟩
  · exact ⟨fun _ => .accessor hi, fun n hn => hn⟩

end StructType

/-! ### Runs of programs -/

namespace Interpreter

variable {m : Interpreter} {e : Expr} {es : List Expr}

theorem eval_sound (hfits : Fits top m.globals) (he : e.Resolved top []) :
    Sound top m.globals (m.eval e) :=
  Expr.eval_sound he hfits rfl (by simp) fun _ _ hv hargs hn =>
    Value.call_sound hfits m.maxDepth hv hargs hn

theorem execute_expression {ps : List String} (he : e.Resolved top ps) :
    m.execute e = do return (m, some (← m.eval e)) := by
  cases he <;> rfl

theorem execute_leads (h : Registers t u e) (ht : t.AtTop) (hfits : Fits t.top m.globals) :
    Yields (fun r => Leads t.top m.globals u.top r.1.globals none)
      (fun err => Leads t.top m.globals t.top m.globals (some (.eval err))) (m.execute e) := by
  have hgrow := h.grows
  have hfail : ∀ err, EvalError.Allowed (Missing t.top m.globals) err →
      Leads t.top m.globals t.top m.globals (some (.eval err)) := by
    rintro err herr
    refine .fail hfits ?_
    rintro _ ⟨⟩
    exact herr
  cases h with
  | @value s e hs he =>
    refine Yields.bind ((eval_sound hfits he).mono (fun _ hv => hv) hfail) fun v hv => ?_
    exact .define hfits ht hs (hv.mono (hgrow.extends ht)) fun n hn => by cases hn
  | @function s params body hs hne hnd hb =>
    -- The closure is made without a look at the body, which may use the name that it gets.
    have hclosure : (Value.closure ⟨⟨s, []⟩, some s, params, body⟩ (.bindings [])).WellFormed
        (t.define s (.function (.exactly params.length))).top :=
      .closure (by simp) (by simpa using hb)
    exact Leads.define hfits ht hs hclosure fun n hn => hn
  | @struct _ s fields hu =>
    let type : StructType := ⟨m.nextSerial, s, fields⟩
    have hd : t.declare (type.rows.map fun r => (r.1, r.2.1)) = (u, .ok ()) := by
      rw [type.rows_names]
      exact hu
    have hleads := Leads.declare hfits ht hd type.rows_suit
    rw [type.rows_bindings] at hleads
    exact hleads
  | expression he =>
    rw [execute_expression he]
    exact Yields.bind ((eval_sound hfits he).mono (fun _ hv => hv) hfail) fun v _ => .refl hfits

theorem runForms_leads (h : RegistersAll t u es) (ht : t.AtTop) (hfits : Fits t.top m.globals) :
    Leads t.top m.globals u.top (m.runForms es).1.globals ((m.runForms es).2.2.map .eval) := by
  induction h generalizing m with
  | nil => exact .refl hfits
  | cons he hes ih =>
    have hexec := execute_leads he ht hfits
    rw [runForms]
    split
    · next herr =>
      -- The names of the forms behind the error have been registered all the same.
      rw [herr] at hexec
      exact hexec.grows ht (he.grows.trans hes.grows)
    · next m' v hok =>
      rw [hok] at hexec
      exact hexec.trans (ih (he.grows.atTop ht) hexec.fits)

theorem runTest_allowed {c : TestCase} (hfits : Fits top m.globals)
    (hc : c.actual.Resolved top [] ∧ c.expected.Resolved top []) :
    Yields (fun _ => True) (EvalError.Allowed (Missing top m.globals)) (m.runTest c) := by
  refine (eval_sound hfits hc.1).bind fun actual _ => ?_
  refine (eval_sound hfits hc.2).bind fun expected _ => ?_
  split <;> trivial

theorem runTests_allowed {tests : List TestCase} (hfits : Fits top m.globals)
    (htests : ∀ c ∈ tests, c.actual.Resolved top [] ∧ c.expected.Resolved top []) :
    ∀ err, (m.runTests tests).2 = some err → err.Allowed (Missing top m.globals) := by
  induction tests with
  | nil => simp [runTests]
  | cons c tests ih =>
    have hc := runTest_allowed hfits (htests c List.mem_cons_self)
    intro err herr
    rw [runTests] at herr
    split at herr
    · next err' hfail =>
      cases herr
      rwa [hfail] at hc
    · exact ih (fun c hc => htests c (List.mem_cons_of_mem _ hc)) err herr

theorem runProgram_leads {p : Program} (h : RegistersAll t u p.forms)
    (htests : ∀ c ∈ p.tests, c.actual.Resolved u.top [] ∧ c.expected.Resolved u.top [])
    (ht : t.AtTop) (hfits : Fits t.top m.globals) :
    Leads t.top m.globals u.top (m.runProgram p).1.globals (m.runProgram p).2.error := by
  have hforms := runForms_leads h ht hfits
  rcases hr : m.runForms p.forms with ⟨m', values, _ | err⟩
  · rw [hr] at hforms
    simp only [runProgram, hr]
    have hallowed := runTests_allowed hforms.fits htests
    rcases hrun : m'.runTests p.tests with ⟨passed, _ | err⟩
    · exact hforms
    · refine hforms.trans (.fail hforms.fits ?_)
      rintro _ ⟨⟩
      exact hallowed err (by simp [hrun])
  · rw [hr] at hforms
    simp only [runProgram, hr]
    exact hforms

end Interpreter

end BeginningStudent
