import BeginningStudent.Proofs.Guards
import BeginningStudent.Proofs.Reached
import BeginningStudent.Proofs.Simulation

/-!
# Accesses in range

Instances have as many fields as their types and accessors belong to a field of theirs
(`Value.InRange`). This stays so in all environments of a machine, and the counter of nested calls is
as high at the end of a call as at its start. So a guarded run makes no access that is out of range,
and does what a run without guards does (`accesses_in_range`).
-/

namespace BeginningStudent

/-! ### Values -/

namespace Value

/-- Every instance in the value has as many fields as its type, and the index of every accessor is
that of a field. -/
inductive InRange : Value → Prop
  | flat {v} (hv : v.isFlat = true) : InRange v
  | pair {first rest} (hfirst : InRange first) (hrest : InRange rest) : InRange (.pair first rest)
  | closure {code locals} (hl : ∀ b ∈ locals, InRange b.2) : InRange (.closure code (.bindings locals))
  | environment {code i} : InRange (.closure code (.environment i))
  | primitive {p} : InRange (.primitive p)
  | constructor {t} : InRange (.constructor t)
  | predicate {t} : InRange (.predicate t)
  | structType {t} : InRange (.structType t)
  | accessor {t i} (hi : i < t.fields.length) : InRange (.accessor t i)
  | record {t fields} (hn : fields.length = t.fields.length) (hf : ∀ v ∈ fields, InRange v) :
    InRange (.record t fields)

namespace InRange

variable {t : StructType} {first rest v : Value} {fields : List Value} {code : Lambda}
  {locals : Bindings}

theorem pair_inv (h : InRange (.pair first rest)) : first.InRange ∧ rest.InRange := by
  cases h with
  | flat hv => cases hv
  | pair hfirst hrest => exact ⟨hfirst, hrest⟩

theorem closure_inv (h : InRange (.closure code (.bindings locals))) :
    ∀ b ∈ locals, b.2.InRange := by
  cases h with
  | flat hv => cases hv
  | closure hl => exact hl

theorem accessor_inv {i : Nat} (h : InRange (.accessor t i)) : i < t.fields.length := by
  cases h with
  | flat hv => cases hv
  | accessor hi => exact hi

theorem record_inv (h : InRange (.record t fields)) :
    fields.length = t.fields.length ∧ ∀ v ∈ fields, v.InRange := by
  cases h with
  | flat hv => cases hv
  | record hn hf => exact ⟨hn, hf⟩

theorem ofDatum (d : Datum) : (ofDatum d).InRange := by
  induction d with
  | pair first rest ihfirst ihrest => exact .pair ihfirst ihrest
  | primitive p => exact .primitive
  | _ => exact .flat rfl

theorem conserved : Conserved InRange fun _ => True where
  simple _ hv := .flat hv.isFlat
  pair _ _ hfirst hrest _ := .pair hfirst hrest
  parts _ _ h := h.pair_inv
  primitive _ := .primitive
  instances _ _ _ hn hfields := .record hn hfields
  fields _ _ h := h.record_inv.2
  closure _ _ := ⟨fun h => ⟨trivial, h.closure_inv⟩, fun h => .closure h.2⟩
  literal d _ := ofDatum d
  quoted d _ := ofDatum d
  lambda _ _ _ _ _ := trivial
  call _ _ _ := ⟨trivial, fun _ _ => trivial⟩
  branch _ _ _ _ _ := ⟨trivial, trivial, fun _ _ => trivial⟩

theorem bindings (t : StructType) : ∀ b ∈ t.bindings, b.2.InRange := by
  intro b hb
  simp only [StructType.bindings, List.mem_cons, List.mem_mapIdx] at hb
  rcases hb with rfl | rfl | rfl | ⟨i, hi, rfl⟩
  · exact .structType
  · exact .constructor
  · exact .predicate
  · exact .accessor hi

end InRange

theorem Reached.inRange {v : Value} (h : v.Reached) : v.InRange :=
  h.reachedBy.conserved InRange.conserved InRange.bindings

end Value

theorem Guarded.call_eq {v : Value} {args : List Value} (hv : v.InRange)
    (hargs : ∀ a ∈ args, a.InRange) : call v args = ofResult (v.call [] 0 args) := by
  cases v with
  | primitive p =>
    rw [Value.call.eq_def]
    change mapError (EvalError.primitive p) (apply p args) =
      ofResult ((p.apply args).mapError (EvalError.primitive p))
    rw [apply_eq]
    cases p.apply args <;> rfl
  | constructor t =>
    rw [Value.call.eq_def]
    exact construct_eq t args
  | predicate t =>
    rw [Value.call.eq_def]
    exact test_eq t args
  | accessor t i =>
    rw [Value.call.eq_def]
    refine access_eq hv.accessor_inv fun fields hrecord => ?_
    exact (hargs (.record t fields) (by simp [hrecord])).record_inv.1
  | _ => rfl

/-! ### Machines -/

namespace Machine

/-- All values that are bound in the machine are in range. -/
def InRange (m : Machine) : Prop :=
  ∀ (i : Nat) (f : Frame), m.tree.frames[i]? = some f → ∀ b ∈ f.bindings, b.2.InRange

variable {m : Machine} {i : Nat} {s : String} {v : Value}

theorem start_inRange (maxDepth : Nat) : (start maxDepth).InRange := by
  intro i f hf b hb
  cases i with
  | zero =>
    cases hf
    cases hb
  | succ i => cases hf

theorem InRange.lookup (hm : m.InRange) (h : m.tree.lookup i s = some v) : v.InRange := by
  induction i using Nat.strongRecOn with
  | ind i ih =>
    rw [EnvironmentTree.lookup] at h
    cases hf : m.tree.frames[i]? with
    | none =>
      rw [hf] at h
      cases h
    | some f =>
      rw [hf] at h
      rcases (Option.orElse_eq_some _ _ _).mp h with hl | ⟨-, hp⟩
      · exact hm i f hf _ (mem_of_lookup hl)
      · cases hparent : f.parent with
        | none =>
          rw [hparent] at hp
          exact Value.InRange.conserved.builtin hp
        | some p =>
          rw [hparent] at hp
          dsimp only at hp
          split at hp
          · exact ih p ‹_› hp
          · cases hp

theorem InRange.child (hm : m.InRange) (i : Nat) :
    InRange { m with tree := (m.tree.child i).2 } := by
  intro j f hf b hb
  change (m.tree.frames.push _)[j]? = some f at hf
  rw [Array.getElem?_push] at hf
  split at hf
  · cases hf
    cases hb
  · exact hm j f hf b hb

theorem InRange.insert (hm : m.InRange) (i : Nat) (s : String) (hv : v.InRange) :
    InRange { m with tree := m.tree.insert i s v } := by
  intro j f hf b hb
  change (m.tree.frames.modify i _)[j]? = some f at hf
  rw [Array.getElem?_modify] at hf
  split at hf
  · obtain ⟨f', hf', rfl⟩ := Option.map_eq_some_iff.mp hf
    rcases List.mem_cons.mp hb with rfl | hb
    · exact hv
    · exact hm j f' hf' b hb
  · exact hm j f hf b hb

end Machine

open Machine

namespace GuardedRun

/-- From machines in range, the guarded computation does the same as the other one, and values in
range come of it, in the machine and as a result. -/
def Safe {α : Type} (P : α → Prop) (g : GuardedRun α) (x : Run α) : Prop :=
  ∀ m : Machine, m.InRange → g m = ofRun x m ∧ (final (x m)).InRange ∧
    ∀ a m', x m = .ok a m' → P a

variable {α β : Type} {P : α → Prop} {Q : β → Prop} {g : GuardedRun α} {x : Run α} {i : Nat}
  {v : Value}

theorem bind_ok_run {f : α → GuardedRun β} {m m' : Machine} {a : α} (h : g m = .ok a m') :
    (g >>= f) m = f a m' := by
  change EStateM.bind g f m = _
  rw [EStateM.bind, h]

theorem bind_error_run {f : α → GuardedRun β} {m m' : Machine} {h : Halt EvalError}
    (hg : g m = .error h m') : (g >>= f) m = .error h m' := by
  change EStateM.bind g f m = _
  rw [EStateM.bind, hg]

theorem ofRun_ok {m m' : Machine} {a : α} (h : x m = .ok a m') : ofRun x m = .ok a m' := by
  rw [ofRun, h]

theorem ofRun_error {m m' : Machine} {e : EvalError} (h : x m = .error e m') :
    ofRun x m = .error (.error e) m' := by
  rw [ofRun, h]

theorem leave_of_pos {m : Machine} (h : 0 < m.depth) :
    leave m = .ok () { m with depth := m.depth - 1 } := if_pos h

namespace Safe

theorem pure {a : α} (ha : P a) : Safe P (pure a) (pure a) :=
  fun m hm => ⟨rfl, hm, fun _ _ h => by cases h; exact ha⟩

theorem throw (e : EvalError) : Safe P (throw (.error e)) (throw e : Run α) :=
  fun m hm => ⟨rfl, hm, fun _ _ h => by cases h⟩

theorem ofRun (hfinal : ∀ m : Machine, m.InRange → (final (x m)).InRange)
    (hP : ∀ m a m', m.InRange → x m = .ok a m' → P a) : Safe P (ofRun x) x :=
  fun m hm => ⟨rfl, hfinal m hm, fun a m' => hP m a m' hm⟩

theorem bind {f : α → GuardedRun β} {y : α → Run β} (hx : Safe P g x)
    (hf : ∀ a, P a → Safe Q (f a) (y a)) : Safe Q (g >>= f) (x >>= y) := by
  intro m hm
  obtain ⟨hg, hfinal, ha⟩ := hx m hm
  cases h : x m with
  | ok a m' =>
    rw [h] at hfinal
    obtain ⟨hg', hfinal', hb⟩ := hf a (ha a m' h) m' hfinal
    rw [ofRun_ok h] at hg
    rw [GuardedRun.ofRun, Machine.bind_ok_run h, bind_ok_run hg]
    exact ⟨hg', hfinal', hb⟩
  | error e m' =>
    rw [h] at hfinal
    rw [ofRun_error h] at hg
    rw [GuardedRun.ofRun, Machine.bind_error_run h, bind_error_run hg]
    exact ⟨rfl, hfinal, fun b m'' hb => by cases hb⟩

theorem lookup (i : Nat) (s : String) :
    Safe Value.InRange (GuardedRun.ofRun (Machine.lookup i s)) (Machine.lookup i s) := by
  refine .ofRun (fun m hm => ?_) fun m v m' hm h => ?_
  · unfold Machine.lookup
    split <;> exact hm
  · unfold Machine.lookup at h
    split at h
    · next hlookup =>
      cases h
      exact hm.lookup hlookup
    · cases h

theorem child (i : Nat) : Safe (fun _ => True) (GuardedRun.ofRun (Machine.child i)) (Machine.child i) :=
  .ofRun (fun _ hm => hm.child i) fun _ _ _ _ _ => trivial

theorem insert (i : Nat) (s : String) (hv : v.InRange) :
    Safe (fun _ => True) (GuardedRun.ofRun (Machine.insert i s v)) (Machine.insert i s v) :=
  .ofRun (fun _ hm => hm.insert i s hv) fun _ _ _ _ _ => trivial

theorem insertAll (i : Nat) {bs : Bindings} (hbs : ∀ b ∈ bs, b.2.InRange) :
    Safe (fun _ => True) (GuardedRun.ofRun (Machine.insertAll i bs)) (Machine.insertAll i bs) := by
  refine .ofRun (fun m hm => ?_) fun _ _ _ _ _ => trivial
  induction bs generalizing m with
  | nil => exact hm
  | cons b bs ih =>
    obtain ⟨s, v⟩ := b
    obtain ⟨hv, hbs⟩ := List.forall_mem_cons.mp hbs
    have hinsert : Machine.insert i s v m = .ok () { m with tree := m.tree.insert i s v } := rfl
    rw [Machine.insertAll, Machine.bind_ok_run hinsert]
    exact ih hbs _ (hm.insert i s hv)

theorem give {r : Except EvalError Value} (hr : Yields Value.InRange (fun _ => True) r) :
    Safe Value.InRange (GuardedRun.give (Guarded.ofResult r)) (Machine.give r) := by
  cases r with
  | ok v => exact .pure hr
  | error e => exact .throw e

theorem enter_thenLeave {g : GuardedRun Value} {x : Run Value} (hx : Safe Value.InRange g x)
    (hkeeps : Preserves x) :
    Safe Value.InRange (do GuardedRun.ofRun Machine.enter; GuardedRun.thenLeave g)
      (do Machine.enter; Machine.thenLeave x) := by
  intro m hm
  by_cases hd : m.maxDepth ≤ m.depth
  · rw [GuardedRun.ofRun, Machine.bind_error_run (enter_full hd),
      bind_error_run (ofRun_error (enter_full hd))]
    exact ⟨rfl, hm, fun v m' h => by cases h⟩
  · obtain ⟨hg, hfinal, hv⟩ := hx { m with depth := m.depth + 1 } hm
    have hdepth := (hkeeps { m with depth := m.depth + 1 }).depth
    rw [GuardedRun.ofRun, Machine.bind_ok_run (enter_free hd),
      bind_ok_run (ofRun_ok (enter_free hd))]
    unfold GuardedRun.thenLeave Machine.thenLeave
    rw [hg]
    cases h : x { m with depth := m.depth + 1 } with
    | ok v m' =>
      rw [h] at hfinal hdepth
      have hpos : 0 < m'.depth := Nat.lt_of_lt_of_eq (Nat.succ_pos _) hdepth.symm
      rw [ofRun_ok h]
      dsimp only
      rw [bind_ok_run (leave_of_pos hpos)]
      exact ⟨rfl, hfinal, fun w m'' hw => by cases hw; exact hv v m' h⟩
    | error e m' =>
      rw [h] at hfinal hdepth
      have hpos : 0 < m'.depth := Nat.lt_of_lt_of_eq (Nat.succ_pos _) hdepth.symm
      rw [ofRun_error h]
      dsimp only
      rw [bind_ok_run (leave_of_pos hpos)]
      exact ⟨rfl, hfinal, fun w m'' hw => by cases hw⟩

end Safe

/-! ### Expressions and calls -/

/-- The guarded calls of values in range do the same as the others. -/
def SafeCaller (call : Value → List Value → GuardedRun Value)
    (call' : Value → List Value → Run Value) : Prop :=
  ∀ v args, v.InRange → (∀ a ∈ args, a.InRange) → Safe Value.InRange (call v args) (call' v args)

section

variable {call : Value → List Value → GuardedRun Value} {call' : Value → List Value → Run Value}

mutual

theorem eval_safe (hcall : SafeCaller call call') (e : Expr) :
    Safe Value.InRange (eval call i e) (Machine.eval call' i e) := by
  match e with
  | .literal d | .quoted d =>
    rw [eval, Machine.eval]
    exact .pure (.ofDatum d)
  | .identifier s =>
    rw [eval, Machine.eval]
    exact .lookup i s
  | .lambda site name params body =>
    rw [eval, Machine.eval]
    exact .pure .environment
  | .define _ _ | .defineStruct _ _ =>
    rw [eval, Machine.eval]
    exact .throw _
  | .call callee arguments =>
    rw [eval, Machine.eval]
    refine (eval_safe hcall callee).bind fun procedure hprocedure => ?_
    refine (evalAll_safe hcall arguments).bind fun args hargs => ?_
    exact hcall procedure args hprocedure hargs
  | .branch form question answer otherwise =>
    rw [eval, Machine.eval]
    refine (eval_safe hcall question).bind fun v _ => ?_
    cases v with
    | boolean b =>
      cases b with
      | true => exact eval_safe hcall answer
      | false => exact evalElse_safe hcall otherwise
    | _ => exact .throw _

theorem evalAll_safe (hcall : SafeCaller call call') (es : List Expr) :
    Safe (fun vs => ∀ v ∈ vs, v.InRange) (evalAll call i es) (Machine.evalAll call' i es) := by
  match es with
  | [] =>
    rw [evalAll, Machine.evalAll]
    exact .pure (List.forall_mem_nil _)
  | e :: rest =>
    rw [evalAll, Machine.evalAll]
    refine (eval_safe hcall e).bind fun v hv => ?_
    exact (evalAll_safe hcall rest).bind fun vs hvs => .pure (List.forall_mem_cons.mpr ⟨hv, hvs⟩)

theorem evalElse_safe (hcall : SafeCaller call call') (otherwise : Option Expr) :
    Safe Value.InRange (evalElse call i otherwise) (Machine.evalElse call' i otherwise) := by
  match otherwise with
  | none =>
    rw [evalElse, Machine.evalElse]
    exact .throw _
  | some e =>
    rw [evalElse, Machine.evalElse]
    exact eval_safe hcall e

end

end

theorem call_safe (levels : Nat) : SafeCaller (call levels) (Machine.call levels) := by
  induction levels using Nat.strongRecOn with
  | ind levels ih =>
    intro v args hv hargs
    have hother : Safe Value.InRange (give (Guarded.call v args))
        (Machine.give (v.call [] 0 args)) := by
      rw [Guarded.call_eq hv hargs]
      exact .give (Value.InRange.conserved.call_keeps (List.forall_mem_nil _) 0 v args hv hargs)
    rw [call.eq_def, Machine.call.eq_def]
    cases v with
    | closure code held =>
      cases held with
      | bindings locals => exact hother
      | environment i =>
        dsimp only
        split
        · refine (Safe.child i).bind fun j _ => ?_
          have hbs : ∀ b ∈ code.params.zip args, b.2.InRange :=
            fun b hb => hargs _ (List.of_mem_zip hb).2
          refine (Safe.insertAll j hbs).bind fun _ _ => ?_
          cases levels with
          | zero => exact .enter_thenLeave (.throw _) (.throw _)
          | succ levels =>
            exact .enter_thenLeave (eval_safe (ih levels (Nat.lt_succ_self _)) code.body)
              (eval_preserves (call_preserves levels) code.body)
        · exact .throw _
    | _ => exact hother

theorem evaluate_safe (i : Nat) (e : Expr) :
    Safe Value.InRange (evaluate i e) (Machine.evaluate i e) :=
  fun m hm => eval_safe (call_safe _) e m hm

/-! ### Commands -/

theorem execute_safe (e : Expr) : Safe (fun _ => True) (execute e) (Machine.execute e) := by
  cases e with
  | define s e =>
    refine (evaluate_safe 0 e).bind fun v hv => ?_
    exact (Safe.insert 0 s hv).bind fun _ _ => .pure trivial
  | defineStruct s fields =>
    have htype : Safe (fun _ => True) (ofRun (Machine.newType s fields))
        (Machine.newType s fields) := .ofRun (fun _ hm => hm) fun _ _ _ _ _ => trivial
    refine htype.bind fun t _ => ?_
    exact (Safe.insertAll 0 (Value.InRange.bindings t)).bind fun _ _ => .pure trivial
  | _ => exact (evaluate_safe 0 _).bind fun v _ => .pure trivial

theorem runTest_safe (t : TestCase) : Safe (fun _ => True) (runTest t) (Machine.runTest t) := by
  refine (evaluate_safe 0 t.actual).bind fun actual _ => ?_
  refine (evaluate_safe 0 t.expected).bind fun expected _ => ?_
  split
  · exact .pure trivial
  · exact .throw _

theorem perform_safe (c : Command) : Safe (fun _ => True) (perform c) (Machine.perform c) := by
  cases c with
  | form e =>
    refine (execute_safe e).bind fun v _ => ?_
    cases v <;> exact .pure trivial
  | test t => exact (runTest_safe t).bind fun _ _ => .pure trivial

theorem step_eq {m : Machine} (hm : m.InRange) (c : Command) :
    step m c = ((m.step c).1, Guarded.ofResult (m.step c).2) ∧ (m.step c).1.InRange := by
  obtain ⟨hg, hfinal, -⟩ := perform_safe c m hm
  unfold step Machine.step
  rw [hg]
  cases h : Machine.perform c m with
  | ok outcome m' =>
    rw [h] at hfinal
    rw [ofRun_ok h]
    exact ⟨rfl, hfinal⟩
  | error e m' =>
    rw [h] at hfinal
    rw [ofRun_error h]
    exact ⟨rfl, hfinal⟩

/-- From a machine in range, a guarded run of commands does what the run without guards does. -/
theorem runCommands_eq {m : Machine} (hm : m.InRange) (cs : List Command) :
    runCommands m cs = ((m.runCommands cs).1, (m.runCommands cs).2.map Guarded.ofResult) := by
  induction cs generalizing m with
  | nil => rfl
  | cons c cs ih =>
    obtain ⟨hstep, hnext⟩ := step_eq hm c
    rw [runCommands, hstep]
    dsimp only
    rw [ih hnext]
    rfl

end GuardedRun

/-! ### Runs -/

/-- A guarded run of any commands comes to no access that is out of range, and to the answers of the
run without guards, which are those of the interpreter. Primitives make no such access whatever they
are applied to. Every instance that a run comes to has as many fields as its type, and the index of
every accessor is that of a field. -/
theorem accesses_in_range (maxDepth : Nat) (cs : List Command) :
    (∀ r ∈ (GuardedRun.runCommands (.start maxDepth) cs).2, ∀ b, r ≠ .error (.breach b)) ∧
    (GuardedRun.runCommands (.start maxDepth) cs).2 =
      ((Machine.start maxDepth).runCommands cs).2.map Guarded.ofResult ∧
    List.Forall₂ SameAnswer ((Machine.start maxDepth).runCommands cs).2
      ((Interpreter.start maxDepth).runCommands cs).2 ∧
    (∀ (p : Primitive) (args : List Value),
      Guarded.apply p args = Guarded.ofResult (p.apply args)) ∧
    (∀ (t : StructType) (fields : List Value), (Value.record t fields).Reached →
      fields.length = t.fields.length) ∧
    ∀ (t : StructType) (i : Nat), (Value.accessor t i).Reached → i < t.fields.length := by
  have hrun := GuardedRun.runCommands_eq (start_inRange maxDepth) cs
  refine ⟨?_, congrArg Prod.snd hrun, (runCommands_simulates (start_twins maxDepth) cs).2,
    Guarded.apply_eq, fun _ _ h => h.inRange.record_inv.1, fun _ _ h => h.inRange.accessor_inv⟩
  intro r hr b hb
  rw [hrun] at hr
  obtain ⟨answer, -, rfl⟩ := List.mem_map.mp hr
  cases answer <;> cases hb

/-- The accessor of the only field of a structure. -/
theorem accesses_in_range_accessor :
    (Value.accessor ⟨0, "p", ["x"]⟩ 0).Reached ∧ 0 < (StructType.mk 0 "p" ["x"]).fields.length := by
  have hvalue : ((Interpreter.start 0).after [.form (.defineStruct "p" ["x"])]).eval
      (.identifier "p-x") = .ok (.accessor ⟨0, "p", ["x"]⟩ 0) := by
    rw [Interpreter.eval_identifier_iff]
    rfl
  have haccessor : (Value.accessor ⟨0, "p", ["x"]⟩ 0).Reached := Interpreter.eval_reached hvalue
  exact ⟨haccessor, (accesses_in_range 0 []).2.2.2.2.2 _ _ haccessor⟩

end BeginningStudent
