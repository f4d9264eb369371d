import BeginningStudent.Proofs.Simulation
import Mathlib.Data.Prod.Lex
import Mathlib.Order.Filter.AtTopBot.Prod

/-!
# Termination

Evaluation calls itself for subexpressions and for the bodies of closures, which may be larger than
the call. One level of this recursion is `Machine.evalStep`, without any bound; evaluation is its
fixed point (`evaluate_eq_step`). Between a call and its recursive calls the counter of nested calls
goes up, or it is the same and the expression gets smaller: each part of an evaluation leaves the
counter as it was, however it ends. So finitely many levels are enough for every evaluation
(`Machine.evaluate_settles`).
-/

namespace BeginningStudent

namespace Expr

mutual

/-- The number of expressions that an expression consists of. -/
def size : Expr → Nat
  | .call callee arguments => size callee + sizeAll arguments + 1
  | .branch _ question answer otherwise => size question + size answer + sizeElse otherwise + 1
  | .lambda _ _ _ body => size body + 1
  | .define _ value => size value + 1
  | .defineStruct _ _ | .identifier _ | .literal _ | .quoted _ => 1

def sizeAll : List Expr → Nat
  | [] => 0
  | e :: rest => size e + sizeAll rest

def sizeElse : Option Expr → Nat
  | none => 0
  | some e => size e

end

theorem size_le_sizeAll {e : Expr} {es : List Expr} (h : e ∈ es) : e.size ≤ sizeAll es := by
  induction es with
  | nil => cases h
  | cons e' rest ih =>
    rw [sizeAll]
    rcases List.mem_cons.mp h with rfl | h
    · omega
    · have := ih h
      omega

end Expr

namespace Machine

/-- A way to evaluate expressions in environments. -/
abbrev Evaluator := Nat → Expr → Run Value

/-! ### One level of the recursion -/

def callStep (F : Evaluator) (procedure : Value) (args : List Value) : Run Value :=
  match procedure with
  | .closure code (.environment i) =>
    if args.length = code.params.length then do
      let i ← child i
      insertAll i (code.params.zip args)
      enter
      thenLeave (F i code.body)
    else throw (.arity code.displayName (.exactly code.params.length) args.length)
  | v => give (v.call [] 0 args)

def listStep (F : Evaluator) (i : Nat) : List Expr → Run (List Value)
  | [] => pure []
  | e :: rest => do
    let v ← F i e
    return v :: (← listStep F i rest)

def elseStep (F : Evaluator) (i : Nat) : Option Expr → Run Value
  | some e => F i e
  | none => throw .allFalse

def evalStep (F : Evaluator) (i : Nat) : Expr → Run Value
  | .literal d | .quoted d => pure (.ofDatum d)
  | .identifier s => lookup i s
  | .lambda site name params body => pure (.closure ⟨site, name, params, body⟩ (.environment i))
  | .call callee arguments => do
    let procedure ← F i callee
    let args ← listStep F i arguments
    callStep F procedure args
  | .branch form question answer otherwise => do
    match ← F i question with
    | .boolean true => F i answer
    | .boolean false => elseStep F i otherwise
    | v => throw (.notBoolean form v)
  | .define _ _ | .defineStruct _ _ => throw .nestedDefinition

def executeBy (F : Evaluator) : Expr → Run (Option Value)
  | .define s e => do
    insert 0 s (← F 0 e)
    return none
  | .defineStruct s fields => do
    insertAll 0 (← newType s fields).bindings
    return none
  | e => do return some (← F 0 e)

def runTestBy (F : Evaluator) (t : TestCase) : Run Unit := do
  let actual ← F 0 t.actual
  let expected ← F 0 t.expected
  if actual.equal expected then return () else throw (.testFailed actual expected)

theorem execute_eq_by (e : Expr) : execute e = executeBy evaluate e := by
  cases e <;> rfl

/-! ### The measure -/

/-- How many calls may still be nested, and the size of the expression. -/
def measure (m : Machine) (e : Expr) : Nat × Nat := (m.maxDepth - m.depth, e.size)

def Below : Nat × Nat → Nat × Nat → Prop := Prod.Lex (· < ·) (· < ·)

theorem below_wf : WellFounded Below := WellFounded.prod_lex Nat.lt_wfRel.wf Nat.lt_wfRel.wf

section

variable {m m' : Machine} {e e' : Expr}

/-- A part is below the whole, also in a machine that other parts have been evaluated in. -/
theorem below_part (h : Keeps m m') (he : e'.size < e.size) :
    Below (m'.measure e') (m.measure e) := by
  rw [measure, measure, h.maxDepth, h.depth]
  exact .right _ he

/-- The body of a closure is below every expression that calls it. -/
theorem below_body (h : Keeps m m') (hd : ¬m'.maxDepth ≤ m'.depth) (body : Expr) :
    Below (measure { m' with depth := m'.depth + 1 } body) (m.measure e) := by
  refine .left _ _ ?_
  have hdepth := h.depth
  have hmax := h.maxDepth
  dsimp only
  omega

end

/-! ### Evaluation as a fixed point -/

variable {α β : Type} {m : Machine} {i : Nat}

theorem bind_congr_run {x y : Run α} {f g : α → Run β} (h : x m = y m)
    (hrest : ∀ a m', y m = .ok a m' → f a m' = g a m') : (x >>= f) m = (y >>= g) m := by
  cases hy : y m with
  | ok a m' =>
    rw [bind_ok_run (h.trans hy), bind_ok_run hy]
    exact hrest a m' hy
  | error err m' => rw [bind_error_run (h.trans hy), bind_error_run hy]

/-- Where the counter lets a call through, a bound of as many levels as the counter still has is no
bound. -/
theorem call_eq_step {levels : Nat} (h : m.maxDepth - m.depth = levels) (v : Value)
    (args : List Value) : call levels v args m = callStep evaluate v args m := by
  rw [call.eq_def, callStep.eq_def]
  cases v with
  | closure code held =>
    cases held with
    | bindings locals => rfl
    | environment i =>
      dsimp only
      split
      · rw [child_insertAll_run, child_insertAll_run]
        have hk := Keeps.bound m i (code.params.zip args)
        generalize m.bound i (code.params.zip args) = m' at hk
        by_cases hd : m'.maxDepth ≤ m'.depth
        · rw [bind_error_run (enter_full hd), bind_error_run (enter_full hd)]
        · rw [bind_ok_run (enter_free hd), bind_ok_run (enter_free hd)]
          have hdepth := hk.depth
          have hmax := hk.maxDepth
          obtain ⟨n, rfl⟩ : ∃ n, levels = n + 1 := ⟨levels - 1, by omega⟩
          have hlevels : m'.maxDepth - (m'.depth + 1) = n := by omega
          simp only [thenLeave, evaluate, hlevels]
      · rfl
  | _ => rfl

theorem keeps_of_ok {x : Run α} {a : α} {m' : Machine} (hx : Preserves x) (h : x m = .ok a m') :
    Keeps m m' := by
  have hk := hx m
  rwa [h] at hk

theorem evalAll_eq_step {levels : Nat} (h : m.maxDepth - m.depth = levels) (es : List Expr) :
    evalAll (call levels) i es m = listStep evaluate i es m := by
  induction es generalizing m with
  | nil => rw [evalAll, listStep]
  | cons e rest ih =>
    rw [evalAll, listStep]
    refine bind_congr_run (by rw [evaluate, h]) fun v m' hv => bind_congr_run ?_ fun _ _ _ => rfl
    have hk := keeps_of_ok (evaluate_preserves i e) hv
    exact ih (by rw [hk.maxDepth, hk.depth, h])

/-- Evaluation follows the recursion without a bound. -/
theorem evaluate_eq_step (i : Nat) (e : Expr) (m : Machine) :
    evaluate i e m = evalStep evaluate i e m := by
  rw [evaluate]
  generalize hlevels : m.maxDepth - m.depth = levels
  have heval : ∀ (m' : Machine), Keeps m m' → ∀ e',
      eval (call levels) i e' m' = evaluate i e' m' := by
    intro m' hk e'
    rw [evaluate, hk.maxDepth, hk.depth, hlevels]
  cases e with
  | literal d | quoted d | identifier s | lambda site name params body | define s e
  | defineStruct s fields => rw [eval, evalStep]
  | call callee arguments =>
    rw [eval, evalStep]
    refine bind_congr_run (heval m (.refl m) callee) fun procedure m' hprocedure => ?_
    have hk := keeps_of_ok (evaluate_preserves i callee) hprocedure
    have hlevels' : m'.maxDepth - m'.depth = levels := by rw [hk.maxDepth, hk.depth, hlevels]
    refine bind_congr_run (evalAll_eq_step hlevels' arguments) fun args m'' hargs => ?_
    rw [← evalAll_eq_step hlevels'] at hargs
    have hk' := keeps_of_ok (evalAll_preserves (call_preserves levels) arguments) hargs
    exact call_eq_step (by rw [hk'.maxDepth, hk'.depth, hlevels']) procedure args
  | branch form question answer otherwise =>
    rw [eval, evalStep]
    refine bind_congr_run (heval m (.refl m) question) fun v m' hv => ?_
    have hk := keeps_of_ok (evaluate_preserves i question) hv
    have helse : evalElse (call levels) i otherwise m' = elseStep evaluate i otherwise m' := by
      cases otherwise with
      | none => rw [evalElse, elseStep]
      | some e =>
        rw [evalElse, elseStep]
        exact heval m' hk e
    cases v with
    | boolean b =>
      cases b with
      | true => exact heval m' hk answer
      | false => exact helse
    | _ => rfl

/-! ### Results that do not depend on what is far below -/

variable {l : Filter Evaluator}

/-- For nearly all evaluators, what is computed with them is what is computed with evaluation. -/
def Settles (l : Filter Evaluator) (x : Evaluator → Run α) (m : Machine) : Prop :=
  ∀ᶠ F in l, x F m = x evaluate m

theorem settles_const (x : Run α) : Settles l (fun _ => x) m :=
  Filter.Eventually.of_forall fun _ => rfl

theorem Settles.bind {x : Evaluator → Run α} {f : Evaluator → α → Run β} (hx : Settles l x m)
    (hf : ∀ a m', x evaluate m = .ok a m' → Settles l (fun F => f F a) m') :
    Settles l (fun F => x F >>= f F) m := by
  cases h : x evaluate m with
  | ok a m' =>
    filter_upwards [hx, hf a m' h] with F hF hrest
    refine bind_congr_run hF fun a' m'' h' => ?_
    rw [h] at h'
    cases h'
    exact hrest
  | error err m' =>
    filter_upwards [hx] with F hF
    refine bind_congr_run hF fun a' m'' h' => ?_
    rw [h] at h'
    cases h'

theorem listStep_settles {es : List Expr}
    (h : ∀ e ∈ es, ∀ m', Keeps m m' → Settles l (fun F => F i e) m') :
    Settles l (fun F => listStep F i es) m := by
  induction es generalizing m with
  | nil => exact settles_const _
  | cons e rest ih =>
    refine (h e List.mem_cons_self m (.refl m)).bind fun v m' hv => ?_
    have hk := keeps_of_ok (evaluate_preserves i e) hv
    refine Settles.bind (ih fun e' he' m'' hk' => ?_) fun vs m'' _ => settles_const _
    exact h e' (List.mem_cons_of_mem e he') m'' (hk.trans hk')

theorem listStep_preserves (i : Nat) (es : List Expr) : Preserves (listStep evaluate i es) := by
  induction es with
  | nil => exact .pure _
  | cons e rest ih => exact (evaluate_preserves i e).bind fun v => ih.bind fun vs => .pure _

theorem callStep_settles {v : Value} {args : List Value}
    (h : ∀ m', Keeps m m' → ¬m'.maxDepth ≤ m'.depth → ∀ j body,
      Settles l (fun F => F j body) { m' with depth := m'.depth + 1 }) :
    Settles l (fun F => callStep F v args) m := by
  cases v with
  | closure code held =>
    cases held with
    | bindings locals => exact settles_const _
    | environment i =>
      by_cases harity : args.length = code.params.length
      · have hk := Keeps.bound m i (code.params.zip args)
        have hrun : ∀ F, callStep F (.closure code (.environment i)) args m =
            (do enter; thenLeave (F m.tree.frames.size code.body) : Run Value)
              (m.bound i (code.params.zip args)) := by
          intro F
          rw [callStep, if_pos harity, child_insertAll_run]
        unfold Settles
        simp only [hrun]
        generalize m.bound i (code.params.zip args) = m' at hk
        by_cases hd : m'.maxDepth ≤ m'.depth
        · simp only [bind_error_run (enter_full hd), Filter.eventually_true]
        · simp only [bind_ok_run (enter_free hd)]
          filter_upwards [h m' hk hd m.tree.frames.size code.body] with F hF
          rw [thenLeave, thenLeave, hF]
      · have hconst : ∀ F, callStep F (.closure code (.environment i)) args =
            throw (.arity code.displayName (.exactly code.params.length) args.length) := by
          intro F
          rw [callStep, if_neg harity]
        simp only [Settles, hconst, Filter.eventually_true]
  | _ => exact settles_const _

/-- What settles below an expression settles for the expression. -/
theorem evalStep_settles {e : Expr}
    (h : ∀ m' i' e', Below (m'.measure e') (m.measure e) → Settles l (fun F => F i' e') m') :
    Settles l (fun F => evalStep F i e) m := by
  cases e with
  | literal d | quoted d | identifier s | lambda site name params body | define s e
  | defineStruct s fields => exact settles_const _
  | call callee arguments =>
    refine (h m i callee (below_part (.refl m) ?_)).bind fun procedure m' hprocedure => ?_
    · rw [Expr.size]
      omega
    have hk := keeps_of_ok (evaluate_preserves i callee) hprocedure
    refine Settles.bind (listStep_settles fun e he m'' hk' => ?_) fun args m'' hargs => ?_
    · refine h m'' i e (below_part (hk.trans hk') ?_)
      have := Expr.size_le_sizeAll he
      rw [Expr.size]
      omega
    have hk' := hk.trans (keeps_of_ok (listStep_preserves i arguments) hargs)
    exact callStep_settles fun m₃ hk₃ hd j body => h _ j body (below_body (hk'.trans hk₃) hd body)
  | branch form question answer otherwise =>
    refine (h m i question (below_part (.refl m) ?_)).bind fun v m' hv => ?_
    · rw [Expr.size]
      omega
    have hk := keeps_of_ok (evaluate_preserves i question) hv
    have hanswer : Settles l (fun F => F i answer) m' := by
      refine h m' i answer (below_part hk ?_)
      rw [Expr.size]
      omega
    have helse : Settles l (fun F => elseStep F i otherwise) m' := by
      cases otherwise with
      | none => exact settles_const _
      | some e =>
        refine h m' i e (below_part hk ?_)
        rw [Expr.size, Expr.sizeElse]
        omega
    cases v with
    | boolean b =>
      cases b with
      | true => exact hanswer
      | false => exact helse
    | _ => exact settles_const _

/-- Evaluators that follow the recursion for many levels and do anything at all below. -/
def cutOffs : Filter Evaluator :=
  (Filter.atTop ×ˢ ⊤).map fun p : Nat × Evaluator => evalStep^[p.1] p.2

theorem settles_cutOffs_iff {x : Evaluator → Run α} :
    Settles cutOffs x m ↔ ∃ n, ∀ k ≥ n, ∀ F, x (evalStep^[k] F) m = x evaluate m := by
  rw [Settles, cutOffs, Filter.eventually_map, ← Filter.eventually_atTop]
  exact Filter.mem_prod_top

/-- Evaluation comes to its result within finitely many levels. -/
theorem evaluate_settles (i : Nat) (e : Expr) (m : Machine) :
    Settles cutOffs (fun F => F i e) m := by
  induction hp : m.measure e using below_wf.induction generalizing i e m with
  | _ p ih =>
    subst hp
    have hstep : Settles cutOffs (fun F => evalStep F i e) m :=
      evalStep_settles fun m' i' e' hbelow => ih _ hbelow i' e' m' rfl
    obtain ⟨n, hn⟩ := settles_cutOffs_iff.mp hstep
    refine settles_cutOffs_iff.mpr ⟨n + 1, fun k hk F => ?_⟩
    obtain ⟨k, rfl⟩ : ∃ k', k = k' + 1 := ⟨k - 1, by omega⟩
    rw [Function.iterate_succ_apply', hn k (by omega) F, evaluate_eq_step]

theorem executeBy_settles (e : Expr) (m : Machine) :
    Settles cutOffs (fun F => executeBy F e) m := by
  cases e with
  | define s e => exact (evaluate_settles 0 e m).bind fun v m' _ => settles_const _
  | defineStruct s fields => exact settles_const _
  | _ => exact (evaluate_settles 0 _ m).bind fun v m' _ => settles_const _

theorem runTestBy_settles (t : TestCase) (m : Machine) :
    Settles cutOffs (fun F => runTestBy F t) m := by
  refine (evaluate_settles 0 t.actual m).bind fun actual m' _ => ?_
  exact (evaluate_settles 0 t.expected m').bind fun expected m'' _ => settles_const _

/-- Evaluation is the only way to follow its recursion. Each level depends on the evaluation of
expressions at pairs below its own only, and finitely many levels give the result of every
evaluation, form and test, whatever is below them. Interpreters answer as machines do. -/
theorem evaluation_terminates :
    (∀ F : Evaluator, (∀ i e m, F i e m = evalStep F i e m) ↔ F = evaluate) ∧
    (∀ (F : Evaluator) (i : Nat) (e : Expr) (m : Machine),
      (∀ i' e' m', Below (m'.measure e') (m.measure e) → F i' e' m' = evaluate i' e' m') →
        evalStep F i e m = evaluate i e m) ∧
    (∀ (i : Nat) (e : Expr) (m : Machine), ∃ n, ∀ F, evalStep^[n] F i e m = evaluate i e m) ∧
    (∀ (e : Expr) (m : Machine), ∃ n, ∀ F, executeBy (evalStep^[n] F) e m = execute e m) ∧
    (∀ (t : TestCase) (m : Machine), ∃ n, ∀ F, runTestBy (evalStep^[n] F) t m = runTest t m) ∧
    ∀ (maxDepth : Nat) (cs : List Command),
      List.Forall₂ SameAnswer ((start maxDepth).runCommands cs).2
        ((Interpreter.start maxDepth).runCommands cs).2 := by
  have hlevels : ∀ (i : Nat) (e : Expr) (m : Machine),
      ∃ n, ∀ F, evalStep^[n] F i e m = evaluate i e m := by
    intro i e m
    obtain ⟨n, hn⟩ := settles_cutOffs_iff.mp (evaluate_settles i e m)
    exact ⟨n, hn n (Nat.le_refl n)⟩
  refine ⟨fun F => ⟨fun h => ?_, ?_⟩, fun F i e m h => ?_, hlevels, fun e m => ?_, fun t m => ?_,
    fun maxDepth cs => (runCommands_simulates (start_twins maxDepth) cs).2⟩
  · have hfixed : evalStep F = F := by
      funext i e m
      exact (h i e m).symm
    funext i e m
    obtain ⟨n, hn⟩ := hlevels i e m
    rw [← hn F, Function.iterate_fixed hfixed]
  · rintro rfl
    exact evaluate_eq_step
  · have hsettles : Settles (pure F) (fun F => evalStep F i e) m :=
      evalStep_settles fun m' i' e' hbelow => h i' e' m' hbelow
    rw [evaluate_eq_step]
    exact hsettles
  · obtain ⟨n, hn⟩ := settles_cutOffs_iff.mp (executeBy_settles e m)
    exact ⟨n, fun F => (hn n (Nat.le_refl n) F).trans (congrFun (execute_eq_by e).symm m)⟩
  · obtain ⟨n, hn⟩ := settles_cutOffs_iff.mp (runTestBy_settles t m)
    exact ⟨n, hn n (Nat.le_refl n)⟩

/-- A procedure that calls what it is given with itself. -/
def selfCaller : Expr := .lambda ⟨"", []⟩ none ["x"] (.call (.identifier "x") [.identifier "x"])

/-- Called with itself, it is stopped by the limit on nested calls. -/
theorem evaluation_terminates_self_application :
    ∃ n m, ∀ F, evalStep^[n] F 0 (.call selfCaller [selfCaller]) (start 2) =
      .error .tooDeep m := by
  have hself : evaluate 0 (.call selfCaller [selfCaller]) (start 2) =
      .error .tooDeep (final (evaluate 0 (.call selfCaller [selfCaller]) (start 2))) := by
    with_unfolding_all rfl
  obtain ⟨-, -, hlevels, -⟩ := evaluation_terminates
  obtain ⟨n, hn⟩ := hlevels 0 (.call selfCaller [selfCaller]) (start 2)
  exact ⟨n, _, fun F => (hn F).trans hself⟩

end Machine
end BeginningStudent
