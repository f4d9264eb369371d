import BeginningStudent.Proofs.Lines
import BeginningStudent.Proofs.Sessions
import BeginningStudent.Proofs.Stability
import Mathlib.Algebra.GroupWithZero.Nat

/-!
# Batches

A session whose steps all succeed does what the single source does that has them one below the
other, apart from the time at which tests run (`run_batch`). They run after everything else, so
they are resolved and evaluated where more is defined, which changes nothing.
-/

namespace BeginningStudent

namespace Fits

variable {top : Scope} {globals globals' : Bindings}

/-- Definitions are fresh, so none of them hides a name of the language. -/
theorem within (h : Fits top globals')
    (hkeeps : ∀ s v, globals.lookup s = some v → globals'.lookup s = some v) :
    globals.Within globals' := by
  intro s v hv
  simp only [Environment.lookup, List.lookup_nil, Option.none_or, Option.orElse_eq_orElse,
    Option.orElse_eq_or] at hv ⊢
  cases hg : globals.lookup s with
  | some w =>
    rw [hkeeps s w hg]
    simpa [hg] using hv
  | none =>
    have hb : Value.builtin? s = some v := by simpa [hg] using hv
    cases hg' : globals'.lookup s with
    | none => simpa using hb
    | some w =>
      obtain ⟨k, hk, -⟩ := h.suits s w hg'
      rw [Value.builtin?_eq_none (h.noBuiltin s k hk)] at hb
      cases hb

end Fits

namespace Interpreter

variable {m m' : Interpreter}

theorem execute_maxDepth {e : Expr} {v : Option Value} (h : m.execute e = .ok (m', v)) :
    m'.maxDepth = m.maxDepth := by
  unfold execute at h
  split at h
  · obtain ⟨v, -, h⟩ := bind_ok.mp h
    cases h
    rfl
  · cases h
    rfl
  · obtain ⟨v, -, h⟩ := bind_ok.mp h
    cases h
    rfl

theorem runForms_maxDepth (m : Interpreter) (es : List Expr) :
    (m.runForms es).1.maxDepth = m.maxDepth := by
  induction es generalizing m with
  | nil => rfl
  | cons e es ih =>
    rw [runForms]
    split
    · rfl
    · next m' v h => exact (ih m').trans (execute_maxDepth h)

theorem runForms_append {es : List Expr} {values : List Value}
    (h : m.runForms es = (m', values, none)) (fs : List Expr) :
    m.runForms (es ++ fs) = ((m'.runForms fs).1, values ++ (m'.runForms fs).2.1,
      (m'.runForms fs).2.2) := by
  induction es generalizing m values with
  | nil =>
    cases h
    rfl
  | cons e es ih =>
    rw [List.cons_append, runForms]
    rw [runForms] at h
    split at h
    · simp at h
    · next m₁ v he =>
      rcases hrun : m₁.runForms es with ⟨m₂, values', err⟩
      rw [hrun] at h
      cases h
      simp only [ih hrun, List.append_assoc]

theorem runTests_ok {tests : List TestCase} {passed : Nat}
    (h : m.runTests tests = (passed, none)) :
    passed = tests.length ∧ ∀ c ∈ tests, m.runTest c = .ok () := by
  induction tests generalizing passed with
  | nil =>
    cases h
    simp
  | cons c tests ih =>
    rw [runTests] at h
    split at h
    · simp at h
    · next hc =>
      rcases hrun : m.runTests tests with ⟨n, err⟩
      rw [hrun] at h
      cases h
      obtain ⟨rfl, htests⟩ := ih hrun
      exact ⟨rfl, List.forall_mem_cons.mpr ⟨hc, htests⟩⟩

theorem runTests_of_ok {tests : List TestCase} (h : ∀ c ∈ tests, m.runTest c = .ok ()) :
    m.runTests tests = (tests.length, none) := by
  induction tests with
  | nil => rfl
  | cons c tests ih =>
    obtain ⟨hc, htests⟩ := List.forall_mem_cons.mp h
    rw [runTests, hc, ih htests]
    rfl

end Interpreter

namespace Session

/-- The forms lead from one session to another without an error, give the values, and leave tests
that pass. -/
structure Completes (s : Session) (forms : List Form) (s' : Session) (values : List Value)
    (tests : List TestCase) : Prop where
  run : ∃ q, s.names.resolveForms forms = (s'.names, .ok q) ∧
    q.tests.mapM s'.names.resolveTest = .ok tests ∧
    s.interpreter.runForms q.forms = (s'.interpreter, values, none)
  pass : ∀ c ∈ tests, s'.interpreter.runTest c = .ok ()

variable {s s' s'' : Session} {source : String}

/-! ### Single steps -/

theorem resolveProgram_of_forms {t u : SymbolTable} {forms : List Form} {q : SplitProgram}
    {tests : List TestCase} (hforms : t.resolveForms forms = (u, .ok q))
    (htests : q.tests.mapM u.resolveTest = .ok tests) :
    t.resolveProgram forms = (u, .ok ⟨q.forms, tests⟩) := by
  simp [SymbolTable.resolveProgram, hforms, htests, Functor.map, Except.map]

theorem completes_of_step (h : (s.step source).2.error = none) :
    ∃ forms values tests, readSource source = .ok forms ∧
      s.Completes forms (s.step source).1 values tests ∧
      (s.step source).2 = ⟨values, tests.length, none⟩ := by
  unfold step at h ⊢
  cases hread : readSource source with
  | error e => simp [hread, Result.ofError] at h
  | ok forms =>
    rw [hread] at h
    dsimp only at h ⊢
    rcases hforms : s.names.resolveForms forms with ⟨u, e | q⟩
    · simp [SymbolTable.resolveProgram, hforms, Result.ofError] at h
    cases htests : q.tests.mapM u.resolveTest with
    | error e =>
      simp [SymbolTable.resolveProgram, hforms, htests, Functor.map, Except.map,
        Result.ofError] at h
    | ok tests =>
      rw [resolveProgram_of_forms hforms htests] at h ⊢
      rcases hrun : s.interpreter.runForms q.forms with ⟨m, values, _ | e⟩
      · rcases hpass : m.runTests tests with ⟨passed, _ | e⟩
        · obtain ⟨rfl, hall⟩ := Interpreter.runTests_ok hpass
          simp only [Interpreter.runProgram, hrun, hpass]
          exact ⟨forms, values, tests, rfl, ⟨⟨q, hforms, htests, hrun⟩, hall⟩, rfl⟩
        · simp [Interpreter.runProgram, hrun, hpass] at h
      · simp [Interpreter.runProgram, hrun] at h

theorem Completes.step {forms : List Form} {values : List Value} {tests : List TestCase}
    (h : s.Completes forms s' values tests) (hread : readSource source = .ok forms) :
    s.step source = (s', ⟨values, tests.length, none⟩) := by
  obtain ⟨⟨q, hforms, htests, hrun⟩, hpass⟩ := h
  simp only [Session.step, hread, resolveProgram_of_forms hforms htests, Interpreter.runProgram,
    hrun, Interpreter.runTests_of_ok hpass]
  rfl

/-! ### Steps one after the other -/

variable {fs gs : List Form} {vs ws : List Value} {ts us : List TestCase}

theorem Completes.nil (s : Session) : s.Completes [] s [] [] :=
  ⟨⟨⟨[], []⟩, by rw [SymbolTable.resolveForms], rfl, rfl⟩, by simp⟩

/-- What a session knows and has defined at one time, and at a later time. -/
structure Later (s s' : Session) : Prop where
  consistent : s'.Consistent
  within : s.names.Within s'.names
  globals : s.interpreter.globals.Within s'.interpreter.globals
  maxDepth : s'.interpreter.maxDepth = s.interpreter.maxDepth

theorem Completes.later (hs : s.Consistent) (h : s.Completes fs s' vs ts) : s.Later s' := by
  obtain ⟨⟨q, hforms, -, hrun⟩, -⟩ := h
  have hgrow := s.names.resolveForms_grows fs
  have hleads := Interpreter.runForms_leads (SymbolTable.resolveForms_registers hs.atTop hforms)
    hs.atTop hs.fits
  have hdepth := s.interpreter.runForms_maxDepth q.forms
  rw [hforms] at hgrow
  rw [hrun] at hleads hdepth
  exact ⟨⟨hgrow.atTop hs.atTop, hleads.fits⟩, hgrow.within hs.atTop,
    hleads.fits.within hleads.keeps, hdepth⟩

theorem Completes.append (hs : s.Consistent) (h : s.Completes fs s' vs ts)
    (h' : s'.Completes gs s'' ws us) : s.Completes (fs ++ gs) s'' (vs ++ ws) (ts ++ us) := by
  have hlater := h'.later (h.later hs).consistent
  obtain ⟨⟨q, hforms, htests, hrun⟩, hpass⟩ := h
  obtain ⟨⟨q', hforms', htests', hrun'⟩, hpass'⟩ := h'
  constructor
  · refine ⟨q.append q', ?_, ?_, ?_⟩
    · rw [SymbolTable.resolveForms_append_ok hforms, hforms']
      rfl
    · -- The tests of the first part are resolved again, where more names are known.
      have hagain : q.tests.mapM s''.names.resolveTest = .ok ts :=
        Refines.mapM (fun test _ => SymbolTable.resolveTest_refines hlater.within test) ts htests
      rw [SplitProgram.append, List.mapM_append, hagain, htests']
      rfl
    · rw [SplitProgram.append, Interpreter.runForms_append hrun, hrun']
  · intro c hc
    rcases List.mem_append.mp hc with hc | hc
    · exact Interpreter.runTest_refines hlater.globals hlater.maxDepth c () (hpass c hc)
    · exact hpass' c hc

theorem completes_of_run (hs : s.Consistent) {sources : List String}
    (h : ∀ r ∈ (s.run sources).2, r.error = none) :
    ∃ parts values tests, sources.mapM readSource = .ok parts ∧
      s.Completes parts.flatten (s.run sources).1 values tests ∧
      values = (s.run sources).2.flatMap Result.values ∧
      tests.length = ((s.run sources).2.map Result.passed).sum := by
  induction sources generalizing s with
  | nil => exact ⟨[], [], [], rfl, .nil s, rfl, rfl⟩
  | cons source sources ih =>
    obtain ⟨hstep, hrest⟩ := List.forall_mem_cons.mp h
    obtain ⟨fs, vs, ts, hread, hcompletes, hresult⟩ := completes_of_step hstep
    obtain ⟨parts, ws, us, hparts, hcompletes', hvalues, hpassed⟩ :=
      ih (hcompletes.later hs).consistent hrest
    refine ⟨fs :: parts, vs ++ ws, ts ++ us, ?_, hcompletes.append hs hcompletes', ?_, ?_⟩
    · rw [List.mapM_cons, hread, hparts]
      rfl
    · simp only [run, List.flatMap_cons, hresult, hvalues]
    · simp only [run, List.map_cons, List.sum_cons, hresult, List.length_append, hpassed]

end Session

/-! ### Batches -/

/-- The report of sources that are run as one, when each of them succeeds in a session. -/
theorem run_batch (maxDepth : Nat) (sources : List String)
    (h : ∀ r ∈ ((Session.start maxDepth).run sources).2, r.error = none) :
    let results := ((Session.start maxDepth).run sources).2
    let passed := (results.map Result.passed).sum
    (run (String.intercalate "\n" sources) maxDepth).error = none ∧
      (run (String.intercalate "\n" sources) maxDepth).lines =
        results.flatMap (fun r => r.values.map Value.text) ++
          if passed = 0 then [] else [testSummary passed] := by
  intro results passed
  obtain ⟨parts, values, tests, hread, hcompletes, hvalues, hpassed⟩ :=
    Session.completes_of_run (Session.start_consistent maxDepth) h
  have hrun : run (String.intercalate "\n" sources) maxDepth = ⟨values, tests.length, none⟩ := by
    rw [run, hcompletes.step (readSource_intercalate hread)]
  have hlines : values.map Value.text = results.flatMap fun r => r.values.map Value.text := by
    rw [hvalues, List.map_flatMap]
  have htests : tests.length = passed := hpassed
  rw [hrun]
  refine ⟨rfl, ?_⟩
  rw [Result.lines, hlines, htests]
  cases passed <;> rfl

/-- The tests of both steps run at the end of the batch. -/
theorem run_batch_square :
    (run (String.intercalate "\n"
      ["(define (f x) (* x x)) (check-expect (f 2) 4)", "(f 3) ; nine", "(check-expect (f 1) 1)"])
        10).lines = ["9", "Both tests passed!"] := by
  have hall : ((Session.start 10).run ["(define (f x) (* x x)) (check-expect (f 2) 4)",
      "(f 3) ; nine", "(check-expect (f 1) 1)"]).2.all (fun r => r.error.isNone) = true := by
    decide +kernel
  have h := (run_batch 10 _ fun r hr => by simpa using List.all_eq_true.mp hall r hr).2
  exact h.trans (by decide +kernel)

end BeginningStudent
