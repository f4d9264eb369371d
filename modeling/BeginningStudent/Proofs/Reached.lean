import BeginningStudent.Proofs.Conserved
import BeginningStudent.Proofs.Generations
import BeginningStudent.Proofs.Likeness

/-!
# What a run reaches

A run evaluates expressions at the top level, between its commands, and in the bodies of the
closures that it calls (`Surroundings.Reached`). The values that it comes to are those of
expressions there, and what such values hold (`Value.Reached`).

What evaluation keeps holds of all of them, also where it depends on a property of the expressions
that are evaluated (`Value.ReachedBy.conserved`). In particular, every instance has as many fields as
its type (`Value.Reached.filled`): only a constructor makes instances, and it counts its arguments.
-/

namespace BeginningStudent

/-- The surroundings of the expressions that a run evaluates. The arguments of a closure have been
counted before its body is. -/
inductive Surroundings.Reached : Surroundings → Prop
  | top {m : Interpreter} {maxDepth : Nat} {cs : List Command}
    (h : (Interpreter.start maxDepth).after cs = m) : Reached ⟨m.globals, m.maxDepth, []⟩
  | body {globals : Bindings} {depth : Nat} {locals held : Bindings} {callee : Expr}
    {es : List Expr} {code : Lambda} {args : List Value}
    (hx : Reached ⟨globals, depth + 1, locals⟩)
    (hcallee : eval ⟨globals, depth + 1, locals⟩ callee = .ok (.closure code (.bindings held)))
    (hargs : evalAll ⟨globals, depth + 1, locals⟩ es = .ok args)
    (hn : args.length = code.params.length) :
    Reached ⟨globals, depth, Bindings.bind held code.params args⟩

inductive Value.Reached : Value → Prop
  | evaluated {x : Surroundings} {e : Expr} {v : Value} (hx : x.Reached) (h : x.eval e = .ok v) :
    Reached v
  | first {first rest : Value} (h : Reached (.pair first rest)) : Reached first
  | rest {first rest : Value} (h : Reached (.pair first rest)) : Reached rest
  | field {t : StructType} {fields : List Value} {v : Value} (h : Reached (.record t fields))
    (hv : v ∈ fields) : Reached v
  | held {code : Lambda} {locals : Bindings} {b : String × Value}
    (h : Reached (.closure code (.bindings locals))) (hb : b ∈ locals) : Reached b.2

def Command.expressions : Command → List Expr
  | .form (.define _ e) => [e]
  | .form (.defineStruct _ _) => []
  | .form e => [e]
  | .test t => [t.actual, t.expected]

inductive Surroundings.ReachedBy (Q : Expr → Prop) : Surroundings → Prop
  | top {m : Interpreter} {maxDepth : Nat} {cs : List Command}
    (hcs : ∀ c ∈ cs, ∀ e ∈ c.expressions, Q e) (h : (Interpreter.start maxDepth).after cs = m) :
    ReachedBy Q ⟨m.globals, m.maxDepth, []⟩
  | body {globals : Bindings} {depth : Nat} {locals held : Bindings} {callee : Expr}
    {es : List Expr} {code : Lambda} {args : List Value}
    (hx : ReachedBy Q ⟨globals, depth + 1, locals⟩) (hq : Q callee) (hqs : ∀ e ∈ es, Q e)
    (hcallee : eval ⟨globals, depth + 1, locals⟩ callee = .ok (.closure code (.bindings held)))
    (hargs : evalAll ⟨globals, depth + 1, locals⟩ es = .ok args)
    (hn : args.length = code.params.length) :
    ReachedBy Q ⟨globals, depth, Bindings.bind held code.params args⟩

inductive Value.ReachedBy (Q : Expr → Prop) : Value → Prop
  | evaluated {x : Surroundings} {e : Expr} {v : Value} (hx : x.ReachedBy Q) (he : Q e)
    (h : x.eval e = .ok v) : ReachedBy Q v
  | first {first rest : Value} (h : ReachedBy Q (.pair first rest)) : ReachedBy Q first
  | rest {first rest : Value} (h : ReachedBy Q (.pair first rest)) : ReachedBy Q rest
  | field {t : StructType} {fields : List Value} {v : Value} (h : ReachedBy Q (.record t fields))
    (hv : v ∈ fields) : ReachedBy Q v
  | held {code : Lambda} {locals : Bindings} {b : String × Value}
    (h : ReachedBy Q (.closure code (.bindings locals))) (hb : b ∈ locals) : ReachedBy Q b.2

theorem Surroundings.Reached.reachedBy {x : Surroundings} (h : x.Reached) :
    x.ReachedBy fun _ => True := by
  induction h with
  | top h => exact .top (fun _ _ _ _ => trivial) h
  | body _ hcallee hargs hn ih => exact .body ih trivial (fun _ _ => trivial) hcallee hargs hn

theorem Value.Reached.reachedBy {v : Value} (h : v.Reached) : v.ReachedBy fun _ => True := by
  induction h with
  | evaluated hx h => exact .evaluated hx.reachedBy trivial h
  | first _ ih => exact .first ih
  | rest _ ih => exact .rest ih
  | field _ hv ih => exact .field ih hv
  | held _ hb ih => exact .held ih hb

namespace Interpreter

variable {m : Interpreter} {cs : List Command} {v : Value}

theorem eval_reached {maxDepth : Nat} {e : Expr}
    (h : ((start maxDepth).after cs).eval e = .ok v) : v.Reached :=
  .evaluated (.top rfl) h

theorem step_value {c : Command} (h : (m.step c).2 = .ok (.value v)) :
    ∃ e ∈ c.expressions, m.eval e = .ok v := by
  cases c with
  | test t =>
    obtain ⟨-, -, h⟩ := map_ok.mp h
    cases h
  | form e =>
    by_cases he : e.isDefinition = false
    · have hexpressions : e ∈ (Command.form e).expressions := by
        cases e <;> first | exact List.mem_singleton_self _ | cases he
      refine ⟨e, hexpressions, ?_⟩
      rw [step, execute_of_not_definition he] at h
      cases hv : m.eval e with
      | error err =>
        rw [hv] at h
        cases h
      | ok w =>
        rw [hv] at h
        cases h
        rfl
    · cases e with
      | define s e =>
        rw [step, execute] at h
        cases hv : m.eval e with
        | error err =>
          rw [hv] at h
          cases h
        | ok w =>
          rw [hv] at h
          cases h
      | defineStruct s fields => cases h
      | _ => exact absurd rfl he

theorem runCommands_value (h : .ok (.value v) ∈ (m.runCommands cs).2) :
    ∃ before c after, cs = before ++ c :: after ∧
      ∃ e ∈ c.expressions, (m.after before).eval e = .ok v := by
  induction cs generalizing m with
  | nil => exact absurd h List.not_mem_nil
  | cons c cs ih =>
    rcases List.mem_cons.mp h with h | h
    · exact ⟨[], c, cs, rfl, step_value h.symm⟩
    · obtain ⟨before, d, after, rfl, hvalue⟩ := ih h
      exact ⟨c :: before, d, after, rfl, hvalue⟩

theorem runCommands_reachedBy {Q : Expr → Prop} {maxDepth : Nat}
    (hcs : ∀ c ∈ cs, ∀ e ∈ c.expressions, Q e)
    (h : .ok (.value v) ∈ ((start maxDepth).runCommands cs).2) : v.ReachedBy Q := by
  obtain ⟨before, c, after, rfl, e, hmem, he⟩ := runCommands_value h
  obtain ⟨hbefore, hlater⟩ := List.forall_mem_append.mp hcs
  exact .evaluated (.top hbefore rfl) ((List.forall_mem_cons.mp hlater).1 e hmem) he

end Interpreter

/-! ### What holds in all of a run -/

section

variable {P : Value → Prop} {Q : Expr → Prop} (hP : Conserved P Q)
  (hstruct : ∀ t : StructType, ∀ b ∈ t.bindings, P b.2)
include hP

namespace Surroundings

variable {x : Surroundings}

theorem eval_conserved (hx : Environment.All P ⟨x.globals, x.locals⟩) {e : Expr} {v : Value}
    (he : Q e) (h : x.eval e = .ok v) : P v := by
  have hv := hP.eval (hP.call_keeps hx.globals x.depth) hx e he
  rw [← eval, h] at hv
  exact hv

theorem evalAll_conserved (hx : Environment.All P ⟨x.globals, x.locals⟩) {es : List Expr}
    {vs : List Value} (hes : ∀ e ∈ es, Q e) (h : x.evalAll es = .ok vs) : ∀ v ∈ vs, P v := by
  have hvs := hP.evalAll (hP.call_keeps hx.globals x.depth) hx es hes
  rw [← evalAll, h] at hvs
  exact hvs

end Surroundings

include hstruct

theorem Interpreter.step_conserved {m : Interpreter} {c : Command}
    (hc : ∀ e ∈ c.expressions, Q e) (h : ∀ b ∈ m.globals, P b.2) :
    ∀ b ∈ (m.step c).1.globals, P b.2 := by
  rcases m.step_cases c with hm | ⟨s, e, v, rfl, hv, hm⟩ | ⟨s, fields, -, hm⟩
  · rwa [hm]
  · have hvalue : P v := Surroundings.eval_conserved (x := ⟨m.globals, m.maxDepth, []⟩) hP
      ⟨h, List.forall_mem_nil _⟩ (hc e (List.mem_singleton_self e)) hv
    rw [hm]
    exact List.forall_mem_cons.mpr ⟨hvalue, h⟩
  · rw [hm]
    intro b hb
    rcases List.mem_append.mp hb with hb | hb
    · exact hstruct _ b (List.mem_reverse.mp hb)
    · exact h b hb

theorem Interpreter.after_conserved {m : Interpreter} (h : ∀ b ∈ m.globals, P b.2)
    {cs : List Command} (hcs : ∀ c ∈ cs, ∀ e ∈ c.expressions, Q e) :
    ∀ b ∈ (m.after cs).globals, P b.2 := by
  induction cs generalizing m with
  | nil => exact h
  | cons c cs ih =>
    obtain ⟨hc, hrest⟩ := List.forall_mem_cons.mp hcs
    rw [after_cons]
    exact ih (step_conserved hP hstruct hc h) hrest

theorem Surroundings.ReachedBy.conserved {x : Surroundings} (h : x.ReachedBy Q) :
    Environment.All P ⟨x.globals, x.locals⟩ := by
  induction h with
  | top hcs h =>
    subst h
    exact ⟨Interpreter.after_conserved hP hstruct (List.forall_mem_nil _) hcs,
      List.forall_mem_nil _⟩
  | body _ hq hqs hcallee hargs _ ih =>
    have hclosure := (hP.closure _ _).mp (eval_conserved hP ih hq hcallee)
    exact ⟨ih.globals, mem_bind (evalAll_conserved hP ih hqs hargs) hclosure.2⟩

/-- A property that evaluation keeps and that what structures bind has is one of every value that a
run comes to. -/
theorem Value.ReachedBy.conserved {v : Value} (h : v.ReachedBy Q) : P v := by
  induction h with
  | evaluated hx he h => exact Surroundings.eval_conserved hP (hx.conserved hP hstruct) he h
  | first _ ih => exact (hP.parts _ _ ih).1
  | rest _ ih => exact (hP.parts _ _ ih).2
  | field _ hv ih => exact hP.fields _ _ ih _ hv
  | held _ hb ih => exact ((hP.closure _ _).mp ih).2 _ hb

end

/-! ### Instances and their types -/

namespace Value

/-- Every instance in the value has as many fields as its type. -/
inductive Filled : Value → Prop
  | atom {v} (hv : v.isAtom = true) : Filled v
  | pair {first rest} (hfirst : Filled first) (hrest : Filled rest) : Filled (.pair first rest)
  | closure {code locals} (hl : ∀ b ∈ locals, Filled b.2) : Filled (.closure code (.bindings locals))
  | record {t fields} (hn : fields.length = t.fields.length) (hf : ∀ v ∈ fields, Filled v) :
    Filled (.record t fields)

theorem Filled.pair_inv {first rest : Value} (h : Filled (.pair first rest)) :
    first.Filled ∧ rest.Filled := by
  cases h with
  | atom hv => simp [isAtom] at hv
  | pair hfirst hrest => exact ⟨hfirst, hrest⟩

theorem Filled.closure_inv {code : Lambda} {locals : Bindings}
    (h : Filled (.closure code (.bindings locals))) : ∀ b ∈ locals, b.2.Filled := by
  cases h with
  | atom hv => simp [isAtom] at hv
  | closure hl => exact hl

theorem Filled.record_inv {t : StructType} {fields : List Value} (h : Filled (.record t fields)) :
    fields.length = t.fields.length ∧ ∀ v ∈ fields, v.Filled := by
  cases h with
  | atom hv => simp [isAtom] at hv
  | record hn hf => exact ⟨hn, hf⟩

theorem Simple.filled {v : Value} (h : v.Simple) : v.Filled := by
  have hflat := h.isFlat
  refine .atom ?_
  cases v <;> first | rfl | cases hflat

theorem filled_ofDatum (d : Datum) : (ofDatum d).Filled := by
  induction d with
  | pair first rest ihfirst ihrest => exact .pair ihfirst ihrest
  | _ => exact .atom rfl

theorem filled_conserved : Conserved Filled fun _ => True where
  simple _ hv := hv.filled
  pair _ _ hfirst hrest _ := .pair hfirst hrest
  parts _ _ h := h.pair_inv
  primitive _ := .atom rfl
  instances _ _ _ hn hfields := .record hn hfields
  fields _ _ h := h.record_inv.2
  closure _ _ := ⟨fun h => ⟨trivial, h.closure_inv⟩, fun h => .closure h.2⟩
  literal d _ := filled_ofDatum d
  quoted d _ := filled_ofDatum d
  lambda _ _ _ _ _ := trivial
  call _ _ _ := ⟨trivial, fun _ _ => trivial⟩
  branch _ _ _ _ _ := ⟨trivial, trivial, fun _ _ => trivial⟩

theorem Reached.filled {v : Value} (h : v.Reached) : v.Filled := by
  refine h.reachedBy.conserved filled_conserved fun t b hb => ?_
  simp only [StructType.bindings, List.mem_cons, List.mem_mapIdx] at hb
  rcases hb with rfl | rfl | rfl | ⟨i, hi, rfl⟩ <;> exact .atom rfl

end Value

end BeginningStudent
