import BeginningStudent.Proofs.Yields
import BeginningStudent.Report
import Mathlib.Data.Nat.Find
import Mathlib.Tactic.ByContra

/-!
# The limit on nested calls

A higher limit on nested calls only lets a run go further. Where the lower limit is not reached, both
runs are the same; where it is, the run is cut off at that place. So every program has one
threshold, which may be infinite (`run_depth_threshold`).
-/

namespace BeginningStudent

/-- The first result is cut off by the depth limit, or the second one is the same. -/
def Deepens {α : Type} (x y : Except EvalError α) : Prop := x = .error .tooDeep ∨ x = y

namespace Deepens

variable {α β : Type} {x y : Except EvalError α}

theorem refl (x : Except EvalError α) : Deepens x x := .inr rfl

theorem bind {f g : α → Except EvalError β} (hx : Deepens x y)
    (hf : ∀ a, Deepens (f a) (g a)) : Deepens (x >>= f) (y >>= g) := by
  rcases hx with rfl | rfl
  · exact .inl rfl
  · cases x with
    | error e => exact .inr rfl
    | ok a => exact hf a

end Deepens

/-! ### Expressions and calls -/

namespace Expr

variable {call call' : Caller} {env : Environment}

mutual

theorem eval_deepens (hcall : ∀ v args, Deepens (call v args) (call' v args)) (e : Expr) :
    Deepens (e.eval call env) (e.eval call' env) := by
  match e with
  | .literal _ | .quoted _ | .identifier _ | .lambda _ _ _ _ | .define _ _ | .defineStruct _ _ =>
    rw [eval, eval]
    exact .refl _
  | .call callee arguments =>
    rw [eval, eval]
    refine (eval_deepens hcall callee).bind fun procedure => ?_
    exact (evalAll_deepens hcall arguments).bind fun args => hcall procedure args
  | .branch form question answer otherwise =>
    rw [eval, eval]
    refine (eval_deepens hcall question).bind fun v => ?_
    split
    · exact eval_deepens hcall answer
    · exact evalElse_deepens hcall otherwise
    · exact .refl _

theorem evalAll_deepens (hcall : ∀ v args, Deepens (call v args) (call' v args))
    (es : List Expr) : Deepens (evalAll call env es) (evalAll call' env es) := by
  match es with
  | [] => exact .refl _
  | e :: rest =>
    rw [evalAll, evalAll]
    refine (eval_deepens hcall e).bind fun v => ?_
    exact (evalAll_deepens hcall rest).bind fun vs => .refl _

theorem evalElse_deepens (hcall : ∀ v args, Deepens (call v args) (call' v args))
    (otherwise : Option Expr) :
    Deepens (evalElse call env otherwise) (evalElse call' env otherwise) := by
  match otherwise with
  | none => exact .refl _
  | some e =>
    rw [evalElse, evalElse]
    exact eval_deepens hcall e

end

end Expr

theorem Value.call_deepens (globals : Bindings) {depth depth' : Nat} (hd : depth ≤ depth')
    (v : Value) (args : List Value) :
    Deepens (call globals depth v args) (call globals depth' v args) := by
  -- The two runs spend their calls in step, so the shorter one is the measure.
  induction depth using Nat.strongRecOn generalizing depth' v args with
  | ind depth ih =>
    rw [call.eq_def globals depth, call.eq_def globals depth']
    cases v with
    | closure code held =>
      cases held with
      | environment i => exact .refl _
      | bindings locals =>
        dsimp only
        split
        · cases depth with
          | zero => exact .inl rfl
          | succ depth =>
            obtain ⟨depth', rfl⟩ : ∃ n, depth' = n + 1 := ⟨depth' - 1, by omega⟩
            simp only [atLevel_eq]
            have hlt : depth < depth + 1 := by omega
            have hle : depth ≤ depth' := by omega
            exact Expr.eval_deepens (fun v args => ih depth hlt hle v args) code.body
        · exact .refl _
    | _ => exact .refl _

/-! ### Runs -/

namespace Interpreter

def deepen (k : Nat) (m : Interpreter) : Interpreter := { m with maxDepth := m.maxDepth + k }

variable (k : Nat) (m : Interpreter)

theorem eval_deepens (e : Expr) : Deepens (m.eval e) ((m.deepen k).eval e) := by
  have hle : m.maxDepth ≤ m.maxDepth + k := by omega
  exact Expr.eval_deepens (Value.call_deepens m.globals hle) e

theorem execute_deepens (e : Expr) :
    Deepens ((fun r => (r.1.deepen k, r.2)) <$> m.execute e) ((m.deepen k).execute e) := by
  have heval := eval_deepens k m
  have hexpr : ∀ e, Deepens ((fun r => (r.1.deepen k, r.2)) <$> do return (m, some (← m.eval e)))
      (do return (m.deepen k, some (← (m.deepen k).eval e)) : Except EvalError _) := by
    intro e
    rcases heval e with h | h
    · rw [h]
      exact .inl rfl
    · rw [← h]
      cases m.eval e <;> exact .refl _
  cases e with
  | define s e =>
    rw [execute, execute]
    rcases heval e with h | h
    · rw [h]
      exact .inl rfl
    · rw [← h]
      cases m.eval e <;> exact .refl _
  | defineStruct s fields => exact .refl _
  | _ => exact hexpr _

/-- A run of forms that is cut off has printed the first of the values that a run with a higher
limit prints. -/
theorem runForms_deepens (es : List Expr) :
    ((m.runForms es).2.2 = some .tooDeep ∧
        (m.runForms es).2.1 <+: ((m.deepen k).runForms es).2.1) ∨
      (m.deepen k).runForms es = ((m.runForms es).1.deepen k, (m.runForms es).2) := by
  induction es generalizing m with
  | nil => exact .inr rfl
  | cons e es ih =>
    rw [runForms, runForms]
    have hexec := execute_deepens k m e
    cases hm : m.execute e with
    | error err =>
      rw [hm] at hexec
      rcases hexec with h | h
      · cases h
        exact .inl ⟨rfl, List.nil_prefix⟩
      · rw [← h]
        exact .inr rfl
    | ok r =>
      obtain ⟨m', v⟩ := r
      rw [hm] at hexec
      rcases hexec with h | h
      · cases h
      · rw [← h]
        dsimp only [Functor.map, Except.map]
        rcases ih m' with ⟨herr, hpre⟩ | heq
        · exact .inl ⟨herr, (List.prefix_append_right_inj _).mpr hpre⟩
        · rw [heq]
          exact .inr rfl

theorem runTest_deepens (c : TestCase) : Deepens (m.runTest c) ((m.deepen k).runTest c) := by
  refine (eval_deepens k m c.actual).bind fun actual => ?_
  exact (eval_deepens k m c.expected).bind fun expected => .refl _

theorem runTests_deepens (tests : List TestCase) :
    (m.runTests tests).2 = some .tooDeep ∨ (m.deepen k).runTests tests = m.runTests tests := by
  induction tests with
  | nil => exact .inr rfl
  | cons c tests ih =>
    rw [runTests, runTests]
    rcases runTest_deepens k m c with h | h
    · rw [h]
      exact .inl rfl
    · rw [← h]
      cases m.runTest c with
      | error err => exact .inr rfl
      | ok _ =>
        rcases ih with herr | heq
        · exact .inl herr
        · rw [heq]
          exact .inr rfl

theorem runProgram_deepens (p : Program) :
    ((m.runProgram p).2.error = some (.eval .tooDeep) ∧
        (m.runProgram p).2.values <+: ((m.deepen k).runProgram p).2.values) ∨
      ((m.deepen k).runProgram p).2 = (m.runProgram p).2 := by
  have hforms := runForms_deepens k m p.forms
  rcases hm : m.runForms p.forms with ⟨m', values, _ | err⟩
  · rw [hm] at hforms
    rcases hforms with ⟨h, -⟩ | h
    · cases h
    have htests := runTests_deepens k m' p.tests
    rcases hrun : m'.runTests p.tests with ⟨passed, err⟩
    simp only [runProgram, hm, h, hrun]
    rw [hrun] at htests
    rcases htests with herr | heq
    · obtain rfl : err = some .tooDeep := herr
      refine .inl ⟨rfl, ?_⟩
      exact List.prefix_rfl
    · rw [heq]
      exact .inr rfl
  · rw [hm] at hforms
    rcases hforms with ⟨herr, hpre⟩ | h
    · obtain rfl : err = .tooDeep := Option.some.inj herr
      rcases hm' : (m.deepen k).runForms p.forms with ⟨m'', values', _ | err'⟩
      · rw [hm'] at hpre
        simp only [runProgram, hm, hm']
        exact .inl ⟨trivial, hpre⟩
      · rw [hm'] at hpre
        simp only [runProgram, hm, hm']
        exact .inl ⟨trivial, hpre⟩
    · simp only [runProgram, hm, h]
      exact .inr trivial

end Interpreter

/-! ### Programs -/

/-- The run was ended by the limit on nested calls. -/
def Result.Overflows (r : Result) : Prop := r.error.map Error.kind = some .stackOverflow

instance (r : Result) : Decidable r.Overflows := inferInstanceAs (Decidable (_ = _))

theorem Result.overflows_iff {r : Result} : r.Overflows ↔ r.error = some (.eval .tooDeep) := by
  obtain ⟨values, passed, err⟩ := r
  constructor
  · intro h
    rcases err with _ | (e | e | e | e)
    · cases h
    · cases h
    · cases h
    · by_cases hi : e.isInternal <;> simp [Overflows, Error.kind, hi] at h
    · cases e with
      | primitive p fault => cases fault <;> cases h
      | tooDeep => rfl
      | _ => cases h
  · intro h
    cases h
    rfl

/-- The limit plays no part before the run: a source fails with one error at all limits, or is the
same program at all limits. -/
theorem run_uniform (source : String) :
    (∃ r, ∀ maxDepth, run source maxDepth = r) ∨
      ∃ p, ∀ maxDepth, run source maxDepth = ((Interpreter.start maxDepth).runProgram p).2 := by
  cases hread : readSource source with
  | error e => exact .inl ⟨.ofError e, fun m => by simp [run, Session.step, hread]⟩
  | ok forms =>
    rcases hp : SymbolTable.empty.resolveProgram forms with ⟨names, e | p⟩
    · exact .inl ⟨.ofError (.resolve e),
        fun m => by simp [run, Session.step, Session.start, hread, hp]⟩
    · exact .inr ⟨p, fun m => by simp [run, Session.step, Session.start, hread, hp]⟩

theorem run_deepens (source : String) {m₁ m₂ : Nat} (hle : m₁ ≤ m₂) :
    ((run source m₁).Overflows ∧ (run source m₁).values <+: (run source m₂).values) ∨
      run source m₂ = run source m₁ := by
  rcases run_uniform source with ⟨r, hr⟩ | ⟨p, hp⟩
  · exact .inr ((hr m₂).trans (hr m₁).symm)
  · obtain ⟨k, rfl⟩ := Nat.exists_eq_add_of_le hle
    rw [hp, hp, Result.overflows_iff]
    exact Interpreter.runProgram_deepens k (.start m₁) p

theorem Result.lines_dropLast {r : Result} (h : r.Overflows) :
    r.lines.dropLast = r.values.map Value.text := by
  obtain ⟨values, passed, err⟩ := r
  obtain rfl : err = _ := overflows_iff.mp h
  simp [lines, closing]

/-- At a higher limit a run that does not overflow is the same, with the same lines and the same
error, and a run that does overflow has printed, up to the error, the first lines of the longer one.
So the limits at which a program overflows are all, or all below some threshold. -/
theorem run_depth_threshold (source : String) :
    (∀ m₁ m₂, m₁ ≤ m₂ → ¬(run source m₁).Overflows →
        (run source m₂).lines = (run source m₁).lines ∧ run source m₂ = run source m₁) ∧
      (∀ m₁ m₂, m₁ ≤ m₂ → (run source m₁).Overflows →
        (run source m₁).lines.dropLast <+: (run source m₂).lines) ∧
      ((∀ m, (run source m).Overflows) ∨ ∃ k, ∀ m, (run source m).Overflows ↔ m < k) := by
  have hsame : ∀ m₁ m₂, m₁ ≤ m₂ → ¬(run source m₁).Overflows → run source m₂ = run source m₁ := by
    intro m₁ m₂ hle hover
    exact (run_deepens source hle).resolve_left fun h => hover h.1
  refine ⟨?_, ?_, ?_⟩
  · intro m₁ m₂ hle hover
    have heq := hsame m₁ m₂ hle hover
    exact ⟨by rw [heq], heq⟩
  · intro m₁ m₂ hle hover
    rw [Result.lines_dropLast hover]
    have hpre : (run source m₁).values <+: (run source m₂).values := by
      rcases run_deepens source hle with ⟨-, hpre⟩ | heq
      · exact hpre
      · have hvalues : (run source m₂).values = (run source m₁).values :=
          congrArg Result.values heq
        exact hvalues ▸ List.prefix_rfl
    exact (hpre.map Value.text).trans (List.prefix_append _ _)
  · by_cases hall : ∀ m, (run source m).Overflows
    · exact .inl hall
    · have hex : ∃ m, ¬(run source m).Overflows := not_forall.mp hall
      refine .inr ⟨Nat.find hex, fun m => ?_⟩
      constructor
      · intro hover
        by_contra hle
        refine Nat.find_spec hex ?_
        rwa [← hsame _ m (not_lt.mp hle) (Nat.find_spec hex)]
      · intro hlt
        exact not_not.mp (Nat.find_min hex hlt)

/-- Three nested calls are needed for the second value. -/
theorem run_depth_threshold_countdown :
    let source := "(define (f n) (if (= n 0) 0 (f (- n 1)))) 7 (f 2)"
    (run source 2).Overflows ∧ (run source 2).lines.dropLast <+: (run source 3).lines ∧
      ¬(run source 3).Overflows ∧ run source 9 = run source 3 := by
  intro source
  have hlow : (run source 2).Overflows := by decide +kernel
  have hhigh : ¬(run source 3).Overflows := by decide +kernel
  obtain ⟨hsame, hcut, -⟩ := run_depth_threshold source
  exact ⟨hlow, hcut 2 3 (by decide) hlow, hhigh, (hsame 3 9 (by decide) hhigh).2⟩

end BeginningStudent
