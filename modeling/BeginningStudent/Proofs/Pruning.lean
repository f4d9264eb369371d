import BeginningStudent.Proofs.Simulation

/-!
# Commands without effect

Expressions, tests, and commands that fail leave no trace, so they can be taken out of a list of
commands without a change to the answers of the others (`Interpreter.runCommands_prunes`). Behind
this stands what evaluation leaves alone in a machine (`evaluation_pure_failure_atomic`).
-/

namespace BeginningStudent

/-- Is the command a definition? -/
def Command.isDefinition : Command → Bool
  | .form e => e.isDefinition
  | .test _ => false

/-- The second list is the first one without some of the commands that fail or are not
definitions. -/
inductive Prunes :
    List (Command × Except EvalError Outcome) → List (Command × Except EvalError Outcome) → Prop
  | nil : Prunes [] []
  | keep {c rest kept} (h : Prunes rest kept) : Prunes (c :: rest) (c :: kept)
  | drop {c answer rest kept} (hc : (∃ e, answer = .error e) ∨ c.isDefinition = false)
    (h : Prunes rest kept) : Prunes ((c, answer) :: rest) kept

namespace Interpreter

variable {m m' : Interpreter} {c : Command}

theorem execute_of_not_definition {e : Expr} (he : e.isDefinition = false) (m : Interpreter) :
    m.execute e = do return (m, some (← m.eval e)) := by
  cases e <;> first | rfl | simp [Expr.isDefinition] at he

theorem step_error_state {e : EvalError} (h : m.step c = (m', .error e)) : m' = m := by
  cases c with
  | test t => exact (congrArg Prod.fst h).symm
  | form e =>
    rw [step] at h
    split at h <;> cases h
    rfl

theorem step_of_not_definition (hc : c.isDefinition = false) : (m.step c).1 = m := by
  cases c with
  | test t => rfl
  | form e =>
    have hexecute : m.execute e = do return (m, some (← m.eval e)) :=
      execute_of_not_definition hc m
    rw [step, hexecute]
    cases m.eval e <;> rfl

theorem step_without_effect
    (hc : (∃ e, (m.step c).2 = .error e) ∨ c.isDefinition = false) : (m.step c).1 = m := by
  rcases hc with ⟨e, he⟩ | hc
  · exact step_error_state (Prod.ext rfl he)
  · exact step_of_not_definition hc

/-- Without commands that have no effect, the others are answered as before. -/
theorem runCommands_prunes {cs : List Command} {kept : List (Command × Except EvalError Outcome)}
    (h : Prunes (cs.zip (m.runCommands cs).2) kept) :
    (m.runCommands (kept.map Prod.fst)).2 = kept.map Prod.snd := by
  induction cs generalizing m kept with
  | nil =>
    cases h
    rfl
  | cons c cs ih =>
    have hrun : (m.runCommands (c :: cs)).2 =
        (m.step c).2 :: ((m.step c).1.runCommands cs).2 := rfl
    rw [hrun, List.zip_cons_cons] at h
    cases h with
    | keep h => exact congrArg ((m.step c).2 :: ·) (ih h)
    | drop hc h =>
      rw [step_without_effect hc] at h
      exact ih h

end Interpreter

/-! ### Frames, failures and lists of commands -/

/-- Evaluation in any environment of a machine leaves all environments there were and the counter as
they are, and so does a command that fails. Machines and interpreters answer commands alike, and
taking out commands that fail, expressions and tests leaves the answers of all others the same. -/
theorem evaluation_pure_failure_atomic :
    (∀ (m : Machine) (i : Nat) (e : Expr), ∃ m' : Machine,
      Machine.final (Machine.evaluate i e m) = m' ∧ m'.depth = m.depth ∧
        ∀ j < m.tree.frames.size, m'.tree.frames[j]? = m.tree.frames[j]?) ∧
    (∀ (m m' : Machine) (c : Command) (e : EvalError), m.step c = (m', .error e) →
      m'.depth = m.depth ∧ m'.nextSerial = m.nextSerial ∧
        ∀ j < m.tree.frames.size, m'.tree.frames[j]? = m.tree.frames[j]?) ∧
    (∀ (m m' : Interpreter) (c : Command) (e : EvalError), m.step c = (m', .error e) → m' = m) ∧
    (∀ (maxDepth : Nat) (cs : List Command),
      List.Forall₂ SameAnswer ((Machine.start maxDepth).runCommands cs).2
        ((Interpreter.start maxDepth).runCommands cs).2) ∧
    ∀ (m : Interpreter) (cs : List Command) (kept : List (Command × Except EvalError Outcome)),
      Prunes (cs.zip (m.runCommands cs).2) kept →
        (m.runCommands (kept.map Prod.fst)).2 = kept.map Prod.snd := by
  refine ⟨fun m i e => ?_, fun m m' c e h => ?_, fun m m' c e h => Interpreter.step_error_state h,
    fun maxDepth cs => (Machine.runCommands_simulates (Machine.start_twins maxDepth) cs).2,
    fun m cs kept h => Interpreter.runCommands_prunes h⟩
  · have hk := Machine.evaluate_preserves i e m
    exact ⟨_, rfl, hk.depth, hk.frames⟩
  · rw [Machine.step] at h
    split at h
    · cases h
    · next hperform =>
      cases h
      have hk := Machine.perform_error_keeps hperform
      exact ⟨hk.depth, hk.nextSerial, hk.frames⟩

/-- A definition, a call of something that cannot be called, and a use of the definition. -/
theorem evaluation_pure_failure_atomic_not_procedure :
    ((Machine.start 1).step (.form (.call (.boolean true) []))).1.tree.frames[0]? =
      some ⟨none, []⟩ ∧
    ((Interpreter.start 1).runCommands
      [.form (.define "x" (.boolean true)), .form (.identifier "x")]).2 =
        [.ok .defined, .ok (.value (.boolean true))] := by
  obtain ⟨-, hmachine, -, -, hprunes⟩ := evaluation_pure_failure_atomic
  have hanswers : ((Interpreter.start 1).runCommands [.form (.define "x" (.boolean true)),
      .form (.call (.boolean true) []), .form (.identifier "x")]).2 =
        [.ok .defined, .error (.notProcedure (.boolean true)), .ok (.value (.boolean true))] := rfl
  have hfails : (Machine.start 1).step (.form (.call (.boolean true) [])) =
      (Machine.start 1, .error (.notProcedure (.boolean true))) := rfl
  constructor
  · obtain ⟨-, -, hframes⟩ := hmachine _ _ _ _ hfails
    rw [hfails]
    exact hframes 0 Nat.zero_lt_one
  · refine hprunes _ [.form (.define "x" (.boolean true)), .form (.call (.boolean true) []),
      .form (.identifier "x")] [(_, .ok .defined), (_, .ok (.value (.boolean true)))] ?_
    rw [hanswers]
    exact .keep (.drop (.inl ⟨_, rfl⟩) (.keep .nil))

end BeginningStudent
