import BeginningStudent.Proofs.Sessions
import BeginningStudent.Proofs.TopNames

/-!
# Definitions are made once

The definitions of an interpreter keep all that has ever been bound at the top level. A form that is
executed binds the names that its resolution has registered (`Interpreter.execute_inserts`). These
were fresh, so that no definition is ever made again or hides a name of the language, and what a name
stands for stays the same to the end of the session (`Session.history_extends`).
-/

namespace BeginningStudent

namespace Interpreter

def names (m : Interpreter) : List String := (m.globals.map Prod.fst).reverse

/-- The second interpreter comes from the first by bindings of the names, in order. None of them is
bound twice, or was bound before, or belongs to the language. -/
structure Inserts (m m' : Interpreter) (names : List String) : Prop where
  globals : ∃ bs : Bindings, m'.globals = bs.reverse ++ m.globals ∧ bs.map Prod.fst = names
  nodup : names.Nodup
  fresh : ∀ s ∈ names, s ∉ m.names ∧ Value.builtin? s = none

def Extends (m m' : Interpreter) : Prop := ∃ names, m.Inserts m' names

variable {m m' m'' : Interpreter} {ns ns' : List String}

theorem Inserts.names_eq (h : m.Inserts m' ns) : m'.names = m.names ++ ns := by
  obtain ⟨bs, hglobals, hnames⟩ := h.globals
  rw [names, names, hglobals, ← hnames]
  simp

theorem Inserts.trans (h : m.Inserts m' ns) (h' : m'.Inserts m'' ns') :
    m.Inserts m'' (ns ++ ns') where
  globals := by
    obtain ⟨bs, hglobals, hnames⟩ := h.globals
    obtain ⟨bs', hglobals', hnames'⟩ := h'.globals
    exact ⟨bs ++ bs', by simp [hglobals, hglobals'], by simp [hnames, hnames']⟩
  nodup := by
    refine List.nodup_append.mpr ⟨h.nodup, h'.nodup, fun s hs s' hs' heq => ?_⟩
    refine (h'.fresh s' hs').1 ?_
    rw [h.names_eq, ← heq]
    exact List.mem_append_right _ hs
  fresh s hs := by
    rcases List.mem_append.mp hs with hs | hs
    · exact h.fresh s hs
    · obtain ⟨hbound, hbuiltin⟩ := h'.fresh s hs
      rw [h.names_eq] at hbound
      exact ⟨fun hmem => hbound (List.mem_append_left _ hmem), hbuiltin⟩

namespace Extends

theorem refl (m : Interpreter) : m.Extends m := ⟨[], ⟨[], rfl, rfl⟩, List.nodup_nil, by simp⟩

theorem trans (h : m.Extends m') (h' : m'.Extends m'') : m.Extends m'' := by
  obtain ⟨ns, h⟩ := h
  obtain ⟨ns', h'⟩ := h'
  exact ⟨ns ++ ns', h.trans h'⟩

end Extends

theorem eval_identifier_iff {s : String} {v : Value} :
    m.eval (.identifier s) = .ok v ↔ (m.globals.lookup s).or (Value.builtin? s) = some v := by
  have hlookup : Environment.lookup ⟨m.globals, []⟩ s =
      (m.globals.lookup s).or (Value.builtin? s) := by
    simp [Environment.lookup]
  rw [eval, Expr.eval, hlookup]
  cases (m.globals.lookup s).or (Value.builtin? s) <;> simp

theorem Extends.eval_identifier (h : m.Extends m') {s : String} {v : Value}
    (hv : m.eval (.identifier s) = .ok v) : m'.eval (.identifier s) = .ok v := by
  obtain ⟨ns, h⟩ := h
  obtain ⟨bs, hglobals, rfl⟩ := h.globals
  rw [eval_identifier_iff] at hv ⊢
  -- A name that has a value is none of those that are bound later.
  have hother : s ∉ bs.map Prod.fst := by
    intro hs
    obtain ⟨hbound, hbuiltin⟩ := h.fresh s hs
    rw [names, List.mem_reverse, ← SymbolTable.lookup_eq_none] at hbound
    rw [hbound, hbuiltin] at hv
    cases hv
  rw [hglobals, List.lookup_append, SymbolTable.lookup_eq_none.mpr, Option.none_or]
  · exact hv
  · rwa [List.map_reverse, List.mem_reverse]

/-! ### Forms that are executed -/

variable {t u : SymbolTable} {e : Expr} {es : List Expr}

theorem defineStruct_globals (m : Interpreter) (s : String) (fields : List String) :
    ∃ bs : Bindings, (m.defineStruct s fields).globals = bs.reverse ++ m.globals ∧
      bs.map Prod.fst = (Definition.struct s fields).names := by
  let type : StructType := ⟨m.nextSerial, s, fields⟩
  refine ⟨type.bindings, rfl, ?_⟩
  have hnames := congrArg (List.map Prod.fst) type.rows_names
  rw [← type.rows_bindings, Definition.names, ← hnames]
  simp

theorem defineStruct_names (m : Interpreter) (s : String) (fields : List String) :
    (m.defineStruct s fields).names = m.names ++ (Definition.struct s fields).names := by
  obtain ⟨bs, hglobals, hnames⟩ := m.defineStruct_globals s fields
  rw [names, names, hglobals, ← hnames]
  simp

theorem execute_globals {v : Option Value} (h : Registers t u e) (ht : t.AtTop)
    (hexec : m.execute e = .ok (m', v)) :
    ∃ bs : Bindings, m'.globals = bs.reverse ++ m.globals ∧ u.names = t.names ++ bs.map Prod.fst := by
  cases h with
  | @value s f _ _ =>
    obtain ⟨w, -, hm⟩ := bind_ok.mp hexec
    cases hm
    exact ⟨[(s, w)], rfl, ht.names_define⟩
  | @function s params body _ _ _ _ =>
    obtain ⟨w, -, hm⟩ := bind_ok.mp hexec
    cases hm
    exact ⟨[(s, w)], rfl, ht.names_define⟩
  | @struct _ s fields hu =>
    cases hexec
    obtain ⟨bs, hglobals, hnames⟩ := m.defineStruct_globals s fields
    exact ⟨bs, hglobals, by rw [SymbolTable.declare_ok_names ht hu, hnames]; rfl⟩
  | expression he =>
    rw [execute_expression he] at hexec
    obtain ⟨w, -, hm⟩ := bind_ok.mp hexec
    cases hm
    exact ⟨[], rfl, by simp⟩

/-- A form binds the names that its resolution has registered. -/
theorem execute_inserts {v : Option Value} (h : Registers t u e) (ht : t.AtTop)
    (hfits : Fits t.top m.globals) (hexec : m.execute e = .ok (m', v)) :
    ∃ ns, m.Inserts m' ns ∧ u.names = t.names ++ ns := by
  obtain ⟨bs, hglobals, hnames⟩ := execute_globals h ht hexec
  obtain ⟨added, hadded, hnodup, hfresh⟩ := h.grows.names ht
  obtain rfl : added = bs.map Prod.fst := List.append_cancel_left (hadded.symm.trans hnames)
  refine ⟨_, ⟨⟨bs, hglobals, rfl⟩, hnodup, fun s hs => ⟨?_, ?_⟩⟩, hnames⟩
  · rw [names, List.mem_reverse, ← SymbolTable.lookup_eq_none]
    exact hfits.lookup_eq_none ht (hfresh s hs)
  · exact Value.builtin?_eq_none (SymbolTable.ofBuiltin?_of_fresh ht (hfresh s hs))

/-! ### Runs -/

def history (m : Interpreter) : List Expr → List Interpreter
  | [] => [m]
  | e :: rest =>
    match m.execute e with
    | .error _ => [m]
    | .ok (m', _) => m :: m'.history rest

theorem mem_history (m : Interpreter) (es : List Expr) : m ∈ m.history es := by
  cases es with
  | nil => simp [history]
  | cons e es =>
    rw [history]
    split <;> simp

theorem history_extends (h : RegistersAll t u es) (ht : t.AtTop) (hfits : Fits t.top m.globals) :
    (m.history es).Pairwise Extends ∧
      ∀ m' ∈ m.history es, m.Extends m' ∧ m'.Extends (m.runForms es).1 := by
  induction h generalizing m with
  | nil => simp [history, runForms, Extends.refl]
  | @cons t u v e es he hes ih =>
    have hleads := execute_leads he ht hfits
    cases hexec : m.execute e with
    | error err => simp [history, runForms, hexec, Extends.refl]
    | ok r =>
      obtain ⟨m₁, value⟩ := r
      rw [hexec] at hleads
      obtain ⟨ns, hinserts, -⟩ := execute_inserts he ht hfits hexec
      have hfirst : m.Extends m₁ := ⟨ns, hinserts⟩
      obtain ⟨hpairs, hall⟩ := ih (he.grows.atTop ht) hleads.fits
      have hlast := (hall m₁ (m₁.mem_history es)).2
      simp only [history, runForms, hexec]
      constructor
      · exact List.pairwise_cons.mpr ⟨fun m' hm' => hfirst.trans (hall m' hm').1, hpairs⟩
      · refine List.forall_mem_cons.mpr ⟨⟨.refl m, hfirst.trans hlast⟩, fun m' hm' => ?_⟩
        exact ⟨hfirst.trans (hall m' hm').1, (hall m' hm').2⟩

end Interpreter

/-! ### Sessions -/

namespace Session

variable {s : Session} {source : String}

def program? (s : Session) (source : String) : Option Program :=
  match readSource source with
  | .error _ => none
  | .ok forms => (s.names.resolveProgram forms).2.toOption

def stepHistory (s : Session) (source : String) : List Interpreter :=
  match s.program? source with
  | none => [s.interpreter]
  | some p => s.interpreter.history p.forms

/-- The interpreters that a session goes through. -/
def history (s : Session) : List String → List Interpreter
  | [] => [s.interpreter]
  | source :: rest => s.stepHistory source ++ (s.step source).1.history rest

/-- In the step of a source the interpreter comes to execute the expression. -/
def Executes (s : Session) (source : String) (m : Interpreter) (e : Expr) : Prop :=
  ∃ p before after values, s.program? source = some p ∧ p.forms = before ++ e :: after ∧
    s.interpreter.runForms before = (m, values, none)

/-- When the source is resolved, one of its forms leads to the expression and registers the names. -/
def RegistersFor (s : Session) (source : String) (e : Expr) (names : List String) : Prop :=
  ∃ before f after t u q, readSource source = .ok (before ++ f :: after) ∧
    s.names.resolveForms before = (t, .ok q) ∧ t.resolveForm f = (u, .ok e) ∧
    u.names = t.names ++ names

theorem program?_eq_some {p : Program} : s.program? source = some p ↔
    ∃ forms names, readSource source = .ok forms ∧ s.names.resolveProgram forms = (names, .ok p) := by
  unfold program?
  cases readSource source with
  | error e => simp
  | ok forms =>
    rcases hr : s.names.resolveProgram forms with ⟨names, e | p'⟩
    · simp [hr, Except.toOption]
    · simp [hr, Except.toOption]

theorem step_of_program {p : Program} (h : s.program? source = some p) :
    (s.step source).1.interpreter = (s.interpreter.runForms p.forms).1 := by
  obtain ⟨forms, names, hread, hresolve⟩ := program?_eq_some.mp h
  simp only [step, hread, hresolve, Interpreter.runProgram]
  rcases s.interpreter.runForms p.forms with ⟨m, values, _ | e⟩ <;> rfl

theorem step_of_no_program (h : s.program? source = none) :
    (s.step source).1.interpreter = s.interpreter := by
  unfold program? at h
  unfold step
  cases hread : readSource source with
  | error e => rfl
  | ok forms =>
    rcases hresolve : s.names.resolveProgram forms with ⟨names, e | p⟩
    · simp only [hresolve]
    · simp [hread, hresolve, Except.toOption] at h

theorem stepHistory_extends (hs : s.Consistent) (source : String) :
    (s.stepHistory source).Pairwise Interpreter.Extends ∧
      ∀ m ∈ s.stepHistory source,
        s.interpreter.Extends m ∧ m.Extends (s.step source).1.interpreter := by
  cases hp : s.program? source with
  | none => simp [stepHistory, hp, step_of_no_program hp, Interpreter.Extends.refl]
  | some p =>
    obtain ⟨forms, names, -, hresolve⟩ := program?_eq_some.mp hp
    have hforms := (SymbolTable.resolveProgram_ok hs.atTop hresolve).1
    simp only [stepHistory, hp, step_of_program hp]
    exact Interpreter.history_extends hforms hs.atTop hs.fits

theorem mem_stepHistory (s : Session) (source : String) : s.interpreter ∈ s.stepHistory source := by
  unfold stepHistory
  split
  · exact List.mem_singleton_self _
  · exact Interpreter.mem_history _ _

theorem history_extends (hs : s.Consistent) (sources : List String) :
    (s.history sources).Pairwise Interpreter.Extends ∧
      ∀ m ∈ s.history sources, s.interpreter.Extends m := by
  induction sources generalizing s with
  | nil => simp [history, Interpreter.Extends.refl]
  | cons source sources ih =>
    obtain ⟨hpairs, hstep⟩ := stepHistory_extends hs source
    obtain ⟨hpairs', hrest⟩ := ih (hs.step source)
    rw [history]
    constructor
    · exact List.pairwise_append.mpr
        ⟨hpairs, hpairs', fun m hm m' hm' => (hstep m hm).2.trans (hrest m' hm')⟩
    · intro m hm
      rcases List.mem_append.mp hm with hm | hm
      · exact (hstep m hm).1
      · exact (hstep _ (s.mem_stepHistory source)).2.trans (hrest m hm)

/-- What a session executes binds the names that were registered for it. -/
theorem executes_inserts (hs : s.Consistent) {m m' : Interpreter} {e : Expr} {v : Option Value}
    (h : s.Executes source m e) (hexec : m.execute e = .ok (m', v)) :
    ∃ names, m.Inserts m' names ∧ s.RegistersFor source e names := by
  obtain ⟨p, before, after, values, hp, hsplit, hrun⟩ := h
  obtain ⟨forms, w, hread, hresolve⟩ := program?_eq_some.mp hp
  obtain ⟨q, hforms, hq⟩ := SymbolTable.resolveProgram_forms hresolve
  obtain ⟨earlier, f, later, t, u, q', rfl, hearlier, rfl, hf⟩ :=
    SymbolTable.resolveForms_split hforms (hq.trans hsplit)
  have hall := SymbolTable.resolveForms_registers hs.atTop hearlier
  have hleads := Interpreter.runForms_leads hall hs.atTop hs.fits
  rw [hrun] at hleads
  have ht := hall.grows.atTop hs.atTop
  obtain ⟨names, hinserts, hnames⟩ :=
    Interpreter.execute_inserts (SymbolTable.resolveForm_registers ht hf) ht hleads.fits hexec
  exact ⟨names, hinserts, earlier, f, later, t, u, q', hread, hearlier, hf, hnames⟩

/-- At all times in a session the names that have been bound are distinct and none is a name of the
language. Later on they are still bound, before all others, and what a name stands for is the same.
The definition of a structure binds its names where they are fresh, after they have been registered
for it. -/
theorem globals_write_once (maxDepth : Nat) (sources : List String) :
    ((start maxDepth).history sources).Pairwise (fun m m' => m.names <+: m'.names ∧
      ∀ x v, m.eval (.identifier x) = .ok v → m'.eval (.identifier x) = .ok v) ∧
    (∀ m ∈ (start maxDepth).history sources,
      m.names.Nodup ∧ ∀ x ∈ m.names, Value.builtin? x = none) ∧
    ∀ earlier source m name fields,
      ((start maxDepth).run earlier).1.Executes source m (.defineStruct name fields) →
        m.Inserts (m.defineStruct name fields) (Definition.struct name fields).names ∧
        ((start maxDepth).run earlier).1.RegistersFor source (.defineStruct name fields)
          (Definition.struct name fields).names := by
  obtain ⟨hpairs, hall⟩ := history_extends (start_consistent maxDepth) sources
  refine ⟨hpairs.imp ?_, ?_, ?_⟩
  · intro m m' h
    obtain ⟨names, hinserts⟩ := h
    exact ⟨⟨names, hinserts.names_eq.symm⟩,
      fun x v hv => Interpreter.Extends.eval_identifier ⟨names, hinserts⟩ hv⟩
  · intro m hm
    obtain ⟨names, h⟩ := hall m hm
    have hnames : m.names = names := h.names_eq
    rw [hnames]
    exact ⟨h.nodup, fun x hx => (h.fresh x hx).2⟩
  · intro earlier source m name fields h
    have hs := (start_consistent maxDepth).run earlier
    obtain ⟨names, hinserts, hregisters⟩ := executes_inserts hs h rfl
    obtain rfl := List.append_cancel_left ((m.defineStruct_names name fields).symm.trans
      hinserts.names_eq)
    exact ⟨hinserts, hregisters⟩

theorem readSource_of_tokens {tokens : List Token} {forms : List Form}
    (h : (Token.ofSource source).toOption = some tokens) (hread : Form.read tokens = .ok forms) :
    readSource source = .ok forms := by
  rcases hscan : Token.ofSource source with e | ts <;> rw [hscan] at h <;> cases h
  rw [readSource, hscan]
  change (Form.read tokens).mapError _ = _
  rw [hread]
  rfl

theorem globals_write_once_struct :
    (start 10).Executes "(define-struct p (x))" (.start 10) (.defineStruct "p" ["x"]) ∧
      (Interpreter.start 10).Inserts ((Interpreter.start 10).defineStruct "p" ["x"])
        ["p", "make-p", "p?", "p-x"] := by
  let form : Form := .group [.keyword .defineStruct, .name "p", .group [.name "x"]]
  let tokens : List Token := [.opening .round, .keyword .defineStruct, .name "p", .opening .round,
    .name "x", .closing .round, .closing .round]
  have hscan : (Token.ofSource "(define-struct p (x))").toOption = some tokens := by
    decide +kernel
  have hread : readSource "(define-struct p (x))" = .ok [form] := readSource_of_tokens hscan rfl
  -- The names are fresh, so the definition is resolved.
  have hfresh : (SymbolTable.empty.declare (Definition.structNames "p" ["x"])).2.isOk = true := by
    decide +kernel
  rcases hdeclare : SymbolTable.empty.declare (Definition.structNames "p" ["x"]) with ⟨u, e | ⟨⟨⟩⟩⟩
  · rw [hdeclare] at hfresh
    cases hfresh
  have hform : SymbolTable.empty.resolveForm form = (u, .ok (.defineStruct "p" ["x"])) := by
    change (Definition.struct "p" ["x"]).resolve .empty = _
    rw [Definition.resolve, hdeclare]
    rfl
  have hresolve : SymbolTable.empty.resolveProgram [form] =
      (u, .ok ⟨[.defineStruct "p" ["x"]], []⟩) := by
    rw [SymbolTable.resolveProgram, SymbolTable.resolveForms, hform]
    · rfl
    · simp [form]
  have hexec : (start 10).Executes "(define-struct p (x))" (.start 10) (.defineStruct "p" ["x"]) :=
    ⟨_, [], [], [], program?_eq_some.mpr ⟨_, _, hread, hresolve⟩, rfl, rfl⟩
  exact ⟨hexec, ((globals_write_once 10 []).2.2 [] _ _ _ _ hexec).1⟩

end Session

end BeginningStudent
