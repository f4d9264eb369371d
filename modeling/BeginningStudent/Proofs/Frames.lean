import BeginningStudent.Machine
import Mathlib.Tactic.ByContra

/-!
# What evaluation leaves alone

A machine adds environments while it evaluates and goes in and out of calls, but the environments
that were there before and the counter are the same afterwards, however the evaluation ends
(`Machine.evaluate_preserves`). So a command that fails has no effect (`Machine.perform_error_keeps`).
-/

namespace BeginningStudent.Machine

/-! ### Results of computations -/

def final {α : Type} : EStateM.Result EvalError Machine α → Machine
  | .ok _ m => m
  | .error _ m => m

theorem bind_ok_run {α β : Type} {x : Run α} {f : α → Run β} {m m' : Machine} {a : α}
    (h : x m = .ok a m') : (x >>= f) m = f a m' := by
  change EStateM.bind x f m = _
  rw [EStateM.bind, h]

theorem bind_error_run {α β : Type} {x : Run α} {f : α → Run β} {m m' : Machine} {e : EvalError}
    (h : x m = .error e m') : (x >>= f) m = .error e m' := by
  change EStateM.bind x f m = _
  rw [EStateM.bind, h]

/-! ### Bindings -/

def bindIn (tree : EnvironmentTree) (i : Nat) (bs : Bindings) : EnvironmentTree :=
  ⟨tree.frames.modify i fun f => { f with bindings := bs.reverse ++ f.bindings }⟩

theorem bindIn_nil (tree : EnvironmentTree) (i : Nat) : bindIn tree i [] = tree := by
  apply congrArg EnvironmentTree.mk
  apply Array.ext
  · simp
  · intro j _ _
    rw [Array.getElem_modify]
    split <;> rfl

theorem bindIn_insert (tree : EnvironmentTree) (i : Nat) (s : String) (v : Value) (bs : Bindings) :
    bindIn (tree.insert i s v) i bs = bindIn tree i ((s, v) :: bs) := by
  simp only [bindIn, EnvironmentTree.insert, EnvironmentTree.mk.injEq]
  apply Array.ext
  · simp
  · intro j _ _
    rw [Array.getElem_modify, Array.getElem_modify, Array.getElem_modify]
    split <;> simp

theorem insertAll_run (i : Nat) (bs : Bindings) (m : Machine) :
    insertAll i bs m = .ok () { m with tree := bindIn m.tree i bs } := by
  induction bs generalizing m with
  | nil => rw [insertAll, bindIn_nil]; rfl
  | cons b bs ih =>
    obtain ⟨s, v⟩ := b
    have hinsert : insert i s v m = .ok () { m with tree := m.tree.insert i s v } := rfl
    rw [insertAll, bind_ok_run hinsert, ih, bindIn_insert]

def grow (tree : EnvironmentTree) (i : Nat) (bs : Bindings) : EnvironmentTree :=
  ⟨tree.frames.push ⟨some i, bs.reverse⟩⟩

theorem bindIn_child (tree : EnvironmentTree) (i : Nat) (bs : Bindings) :
    bindIn (tree.child i).2 (tree.child i).1 bs = grow tree i bs := by
  simp only [bindIn, EnvironmentTree.child, grow, EnvironmentTree.mk.injEq]
  apply Array.ext
  · simp
  · intro j _ _
    rw [Array.getElem_modify, Array.getElem_push, Array.getElem_push]
    split <;> split <;> simp_all <;> omega

/-- The machine in which a closure's parameters are bound. -/
def bound (m : Machine) (i : Nat) (bs : Bindings) : Machine := { m with tree := grow m.tree i bs }

theorem child_insertAll_run {α : Type} (i : Nat) (bs : Bindings) (f : Nat → Run α) (m : Machine) :
    (do let j ← child i; insertAll j bs; f j : Run α) m =
      f m.tree.frames.size (m.bound i bs) := by
  have hchild : child i m = .ok (m.tree.child i).1 { m with tree := (m.tree.child i).2 } := rfl
  rw [bind_ok_run hchild, bind_ok_run (insertAll_run _ _ _)]
  dsimp only
  rw [bindIn_child]
  rfl

/-! ### Machines that agree on what there was -/

/-- The second machine still has the environments of the first, and the same counters. -/
structure Keeps (m m' : Machine) : Prop where
  frames : ∀ i < m.tree.frames.size, m'.tree.frames[i]? = m.tree.frames[i]?
  depth : m'.depth = m.depth
  maxDepth : m'.maxDepth = m.maxDepth
  nextSerial : m'.nextSerial = m.nextSerial

namespace Keeps

variable {m m' m'' : Machine}

theorem refl (m : Machine) : Keeps m m := ⟨fun _ _ => rfl, rfl, rfl, rfl⟩

theorem size_le (h : Keeps m m') : m.tree.frames.size ≤ m'.tree.frames.size := by
  by_contra hlt
  have hsize := h.frames m'.tree.frames.size (by omega)
  rw [Array.getElem?_eq_none (Nat.le_refl _), Array.getElem?_eq_getElem (by omega)] at hsize
  cases hsize

theorem trans (h : Keeps m m') (h' : Keeps m' m'') : Keeps m m'' where
  frames i hi := (h'.frames i (Nat.lt_of_lt_of_le hi h.size_le)).trans (h.frames i hi)
  depth := h'.depth.trans h.depth
  maxDepth := h'.maxDepth.trans h.maxDepth
  nextSerial := h'.nextSerial.trans h.nextSerial

theorem bound (m : Machine) (i : Nat) (bs : Bindings) : Keeps m (m.bound i bs) where
  frames j hj := by
    change (m.tree.frames.push _)[j]? = _
    rw [Array.getElem?_push_lt hj, Array.getElem?_eq_getElem hj]
  depth := rfl
  maxDepth := rfl
  nextSerial := rfl

theorem leave (h : Keeps { m with depth := m.depth + 1 } m') :
    Keeps m { m' with depth := m'.depth - 1 } where
  frames := h.frames
  depth := by
    have hdepth : m'.depth = m.depth + 1 := h.depth
    simp [hdepth]
  maxDepth := h.maxDepth
  nextSerial := h.nextSerial

end Keeps

/-- The computation keeps what there was, however it ends. -/
def Preserves {α : Type} (x : Run α) : Prop := ∀ m, Keeps m (final (x m))

namespace Preserves

variable {α β : Type}

theorem pure (a : α) : Preserves (pure a : Run α) := Keeps.refl

theorem throw (e : EvalError) : Preserves (throw e : Run α) := Keeps.refl

theorem bind {x : Run α} {f : α → Run β} (hx : Preserves x) (hf : ∀ a, Preserves (f a)) :
    Preserves (x >>= f) := by
  intro m
  have hm := hx m
  cases h : x m with
  | ok a m' =>
    rw [h] at hm
    rw [bind_ok_run h]
    exact hm.trans (hf a m')
  | error e m' =>
    rw [h] at hm
    rw [bind_error_run h]
    exact hm

end Preserves

theorem lookup_preserves (i : Nat) (s : String) : Preserves (lookup i s) := by
  intro m
  unfold lookup
  split <;> exact .refl m

theorem give_preserves (x : Except EvalError Value) : Preserves (give x) := by
  cases x with
  | ok v => exact .pure v
  | error e => exact .throw e

theorem enter_full {m : Machine} (h : m.maxDepth ≤ m.depth) : enter m = .error .tooDeep m :=
  if_pos h

theorem enter_free {m : Machine} (h : ¬m.maxDepth ≤ m.depth) :
    enter m = .ok () { m with depth := m.depth + 1 } :=
  if_neg h

theorem enter_thenLeave_preserves {x : Run Value} (hx : Preserves x) :
    Preserves (do enter; thenLeave x) := by
  intro m
  by_cases hd : m.maxDepth ≤ m.depth
  · rw [bind_error_run (enter_full hd)]
    exact .refl m
  · rw [bind_ok_run (enter_free hd)]
    have hk := hx { m with depth := m.depth + 1 }
    unfold thenLeave
    split <;> rename_i hr <;> rw [hr] at hk <;> exact hk.leave

/-! ### Expressions and calls -/

section

variable {call : Value → List Value → Run Value} {i : Nat}

mutual

theorem eval_preserves (hcall : ∀ v args, Preserves (call v args)) (e : Expr) :
    Preserves (eval call i e) := by
  match e with
  | .literal d | .quoted d =>
    rw [eval]
    exact .pure _
  | .identifier s =>
    rw [eval]
    exact lookup_preserves i s
  | .lambda _ _ _ _ =>
    rw [eval]
    exact .pure _
  | .define _ _ | .defineStruct _ _ =>
    rw [eval]
    exact .throw _
  | .call callee arguments =>
    rw [eval]
    refine (eval_preserves hcall callee).bind fun procedure => ?_
    exact (evalAll_preserves hcall arguments).bind fun args => hcall procedure args
  | .branch form question answer otherwise =>
    rw [eval]
    refine (eval_preserves hcall question).bind fun v => ?_
    split
    · exact eval_preserves hcall answer
    · exact evalElse_preserves hcall otherwise
    · exact .throw _

theorem evalAll_preserves (hcall : ∀ v args, Preserves (call v args)) (es : List Expr) :
    Preserves (evalAll call i es) := by
  match es with
  | [] =>
    rw [evalAll]
    exact .pure _
  | e :: rest =>
    rw [evalAll]
    refine (eval_preserves hcall e).bind fun v => ?_
    exact (evalAll_preserves hcall rest).bind fun vs => .pure _

theorem evalElse_preserves (hcall : ∀ v args, Preserves (call v args)) (otherwise : Option Expr) :
    Preserves (evalElse call i otherwise) := by
  match otherwise with
  | none =>
    rw [evalElse]
    exact .throw _
  | some e =>
    rw [evalElse]
    exact eval_preserves hcall e

end

end

theorem call_preserves (levels : Nat) (v : Value) (args : List Value) :
    Preserves (call levels v args) := by
  induction levels using Nat.strongRecOn generalizing v args with
  | ind levels ih =>
    rw [call.eq_def]
    split
    · next code place =>
      split
      · intro m
        rw [child_insertAll_run]
        refine (Keeps.bound m _ _).trans (enter_thenLeave_preserves ?_ _)
        cases levels with
        | zero => exact .throw _
        | succ levels =>
          exact eval_preserves (fun v args => ih levels (Nat.lt_succ_self _) v args) code.body
      · exact .throw _
    · exact give_preserves _

theorem evaluate_preserves (i : Nat) (e : Expr) : Preserves (evaluate i e) :=
  fun m => eval_preserves (call_preserves _) e m

theorem runTest_preserves (t : TestCase) : Preserves (runTest t) := by
  refine (evaluate_preserves 0 t.actual).bind fun actual => ?_
  refine (evaluate_preserves 0 t.expected).bind fun expected => ?_
  split
  · exact .pure _
  · exact .throw _

/-! ### Commands -/

section

variable {s : String} {e : Expr} {m m' : Machine} {v : Value} {err : EvalError}

theorem execute_define_ok (h : evaluate 0 e m = .ok v m') :
    execute (.define s e) m = .ok none { m' with tree := bindIn m'.tree 0 [(s, v)] } := by
  rw [execute, bind_ok_run h]
  rfl

theorem execute_define_error (h : evaluate 0 e m = .error err m') :
    execute (.define s e) m = .error err m' := by
  rw [execute, bind_error_run h]

theorem execute_defineStruct (s : String) (fields : List String) (m : Machine) :
    execute (.defineStruct s fields) m =
      .ok none
        { m with
          tree := bindIn m.tree 0 (StructType.mk m.nextSerial s fields).bindings
          nextSerial := m.nextSerial + 1 } := by
  have htype : newType s fields m =
      .ok ⟨m.nextSerial, s, fields⟩ { m with nextSerial := m.nextSerial + 1 } := rfl
  rw [execute, bind_ok_run htype, bind_ok_run (insertAll_run _ _ _)]
  rfl

theorem execute_of_not_definition (he : e.isDefinition = false) :
    execute e = do return some (← evaluate 0 e) := by
  cases e <;> first | rfl | simp [Expr.isDefinition] at he

theorem execute_expression_ok (he : e.isDefinition = false) (h : evaluate 0 e m = .ok v m') :
    execute e m = .ok (some v) m' := by
  rw [execute_of_not_definition he, bind_ok_run h]
  rfl

theorem execute_expression_error (he : e.isDefinition = false)
    (h : evaluate 0 e m = .error err m') : execute e m = .error err m' := by
  rw [execute_of_not_definition he, bind_error_run h]

/-- A definition has its effect only at its end. -/
theorem execute_error_keeps (h : execute e m = .error err m') : Keeps m m' := by
  by_cases he : e.isDefinition = false
  · have hk := evaluate_preserves 0 e m
    cases hv : evaluate 0 e m with
    | ok v m'' =>
      rw [execute_expression_ok he hv] at h
      cases h
    | error err' m'' =>
      rw [hv] at hk
      rw [execute_expression_error he hv] at h
      cases h
      exact hk
  · cases e with
    | define s e =>
      have hk := evaluate_preserves 0 e m
      cases hv : evaluate 0 e m with
      | ok v m'' =>
        rw [execute_define_ok hv] at h
        cases h
      | error err' m'' =>
        rw [hv] at hk
        rw [execute_define_error hv] at h
        cases h
        exact hk
    | defineStruct s fields =>
      rw [execute_defineStruct] at h
      cases h
    | _ => exact absurd rfl he

theorem perform_error_keeps {c : Command} (h : perform c m = .error err m') : Keeps m m' := by
  cases c with
  | form e =>
    rw [perform] at h
    cases hv : execute e m with
    | ok v m'' =>
      rw [bind_ok_run hv] at h
      cases v <;> cases h
    | error err' m'' =>
      rw [bind_error_run hv] at h
      cases h
      exact execute_error_keeps hv
  | test t =>
    have hk := (runTest_preserves t).bind (fun _ => .pure Outcome.passed) m
    rw [perform] at h
    change Keeps m (final ((do runTest t; return .passed : Run Outcome) m)) at hk
    rw [h] at hk
    exact hk

end

end BeginningStudent.Machine
