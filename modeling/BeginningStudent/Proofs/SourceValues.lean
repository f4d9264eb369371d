import BeginningStudent.Proofs.Reached

/-!
# What a source comes to

In a step of a session, forms of the program are executed one after the other and then its tests are
run. This evaluates expressions in surroundings (`Session.Evaluates`), also those inside of others
and in the bodies of the closures that are called. The values that the step comes to are the
definitions, the arguments in sight, the values of these expressions and what is printed, with all
their parts (`Session.Meets`).

An invariant of the interpreter needs to be shown for one form only (`Interpreter.Maintains`). What
evaluation keeps holds of all values that a step comes to (`Session.Meets.conserved`).
-/

namespace BeginningStudent

/-! ### Invariants of interpreters -/

namespace Interpreter

/-- To execute a form with the property `Q` keeps the property `I` of the interpreter, and gives
values with the property `V` only. -/
def Maintains (I : Interpreter → Prop) (V : Value → Prop) (Q : Expr → Prop) : Prop :=
  ∀ m e m' v, I m → Q e → m.execute e = .ok (m', v) → I m' ∧ ∀ w ∈ v.toList, V w

variable {I : Interpreter → Prop} {V : Value → Prop} {Q : Expr → Prop} {m m' : Interpreter}
  {e : Expr} {es : List Expr}

theorem Maintains.runForms (hI : Maintains I V Q) (h : I m) (hes : ∀ e ∈ es, Q e) :
    (∀ m' ∈ m.history es, I m') ∧ I (m.runForms es).1 ∧ ∀ v ∈ (m.runForms es).2.1, V v := by
  induction es generalizing m with
  | nil => exact ⟨List.forall_mem_singleton.mpr h, h, List.forall_mem_nil _⟩
  | cons e es ih =>
    obtain ⟨he, hrest⟩ := List.forall_mem_cons.mp hes
    cases hexec : m.execute e with
    | error err =>
      simp only [Interpreter.history, Interpreter.runForms, hexec]
      exact ⟨List.forall_mem_singleton.mpr h, h, List.forall_mem_nil _⟩
    | ok r =>
      obtain ⟨m', v⟩ := r
      obtain ⟨hm', hv⟩ := hI m e m' v h he hexec
      obtain ⟨hhistory, hlast, hvalues⟩ := ih hm' hrest
      simp only [Interpreter.history, Interpreter.runForms, hexec]
      exact ⟨List.forall_mem_cons.mpr ⟨h, hhistory⟩, hlast,
        List.forall_mem_append.mpr ⟨hv, hvalues⟩⟩

theorem step_execute {v : Option Value} (h : m.execute e = .ok (m', v)) :
    (m.step (.form e)).1 = m' ∧ ∀ w, v = some w → (m.step (.form e)).2 = .ok (.value w) := by
  rw [Interpreter.step, h]
  cases v with
  | none => exact ⟨rfl, fun w hw => by cases hw⟩
  | some u => exact ⟨rfl, fun w hw => by cases hw; rfl⟩

end Interpreter

namespace Session

variable {I : Interpreter → Prop} {V : Value → Prop} {Q : Expr → Prop} {s : Session}
  {source : String}

theorem step_values (s : Session) (source : String) :
    (s.step source).2.values =
      ((s.program? source).map fun p => (s.interpreter.runForms p.forms).2.1).getD [] := by
  unfold step program?
  cases readSource source with
  | error e => rfl
  | ok forms =>
    rcases hresolve : s.names.resolveProgram forms with ⟨names, e | p⟩
    · simp [hresolve, Except.toOption, Result.ofError]
    · rcases hrun : s.interpreter.runForms p.forms with ⟨m, values, _ | e⟩ <;>
        simp [hresolve, Except.toOption, Interpreter.runProgram, hrun]

theorem step_maintains (hI : Interpreter.Maintains I V Q)
    (hQ : ∀ p, s.program? source = some p → ∀ e ∈ p.forms, Q e) (h : I s.interpreter) :
    (∀ m ∈ s.stepHistory source, I m) ∧ I (s.step source).1.interpreter ∧
      ∀ v ∈ (s.step source).2.values, V v := by
  cases hp : s.program? source with
  | none =>
    rw [stepHistory, hp, step_of_no_program hp, step_values, hp]
    exact ⟨List.forall_mem_singleton.mpr h, h, List.forall_mem_nil _⟩
  | some p =>
    rw [stepHistory, hp, step_of_program hp, step_values, hp]
    exact hI.runForms h (hQ p hp)

theorem run_maintains (hI : Interpreter.Maintains I V Q)
    (hQ : ∀ (s : Session) source p, s.program? source = some p → ∀ e ∈ p.forms, Q e)
    (h : I s.interpreter) (sources : List String) :
    (∀ m ∈ s.history sources, I m) ∧ I (s.run sources).1.interpreter ∧
      ∀ r ∈ (s.run sources).2, ∀ v ∈ r.values, V v := by
  induction sources generalizing s with
  | nil => exact ⟨List.forall_mem_singleton.mpr h, h, List.forall_mem_nil _⟩
  | cons source sources ih =>
    obtain ⟨hsteps, hlast, hvalues⟩ := step_maintains hI (hQ s source) h
    obtain ⟨hhistory, hend, hresults⟩ := ih hlast
    exact ⟨List.forall_mem_append.mpr ⟨hsteps, hhistory⟩, hend,
      List.forall_mem_cons.mpr ⟨hvalues, hresults⟩⟩

/-! ### Expressions and values of a step -/

/-- In the step of a source the interpreter comes to run the test. -/
def Tests (s : Session) (source : String) (m : Interpreter) (t : TestCase) : Prop :=
  ∃ p before after values, s.program? source = some p ∧ p.tests = before ++ t :: after ∧
    s.interpreter.runForms p.forms = (m, values, none) ∧ (m.runTests before).2 = none

inductive Evaluates (s : Session) (source : String) : Surroundings → Expr → Prop
  | form {m e d} (h : s.Executes source m e) (hd : d ∈ (Command.form e).expressions) :
    Evaluates s source ⟨m.globals, m.maxDepth, []⟩ d
  | actual {m t} (h : s.Tests source m t) :
    Evaluates s source ⟨m.globals, m.maxDepth, []⟩ t.actual
  | expected {m t v} (h : s.Tests source m t) (hv : m.eval t.actual = .ok v) :
    Evaluates s source ⟨m.globals, m.maxDepth, []⟩ t.expected
  | callee {x callee es} (h : Evaluates s source x (.call callee es)) :
    Evaluates s source x callee
  | argument {x callee before e after procedure args}
    (h : Evaluates s source x (.call callee (before ++ e :: after)))
    (hcallee : x.eval callee = .ok procedure) (hbefore : x.evalAll before = .ok args) :
    Evaluates s source x e
  | question {x form question answer otherwise}
    (h : Evaluates s source x (.branch form question answer otherwise)) :
    Evaluates s source x question
  | answer {x form question answer otherwise}
    (h : Evaluates s source x (.branch form question answer otherwise))
    (hquestion : x.eval question = .ok (.boolean true)) : Evaluates s source x answer
  | otherwise {x form question answer e}
    (h : Evaluates s source x (.branch form question answer (some e)))
    (hquestion : x.eval question = .ok (.boolean false)) : Evaluates s source x e
  | body {globals depth locals held callee es code args}
    (h : Evaluates s source ⟨globals, depth + 1, locals⟩ (.call callee es))
    (hcallee : Surroundings.eval ⟨globals, depth + 1, locals⟩ callee =
      .ok (.closure code (.bindings held)))
    (hargs : Surroundings.evalAll ⟨globals, depth + 1, locals⟩ es = .ok args)
    (hn : args.length = code.params.length) :
    Evaluates s source ⟨globals, depth, Bindings.bind held code.params args⟩ code.body

/-- The values that the step of a source comes to, those that are parts of others included. -/
inductive Meets (s : Session) (source : String) : Value → Prop
  | definition {m b} (h : m ∈ s.stepHistory source) (hb : b ∈ m.globals) : Meets s source b.2
  | parameter {x e b} (h : s.Evaluates source x e) (hb : b ∈ x.locals) : Meets s source b.2
  | evaluated {x e v} (h : s.Evaluates source x e) (hv : x.eval e = .ok v) : Meets s source v
  | printed {v} (h : v ∈ (s.step source).2.values) : Meets s source v
  | first {first rest} (h : Meets s source (.pair first rest)) : Meets s source first
  | rest {first rest} (h : Meets s source (.pair first rest)) : Meets s source rest
  | field {t fields v} (h : Meets s source (.record t fields)) (hv : v ∈ fields) :
    Meets s source v
  | held {code locals b} (h : Meets s source (.closure code (.bindings locals))) (hb : b ∈ locals) :
    Meets s source b.2

end Session

/-! ### What evaluation keeps -/

/-- All expressions of the program that are evaluated at the top level have the property. -/
structure Program.Every (Q : Expr → Prop) (p : Program) : Prop where
  forms : ∀ e ∈ p.forms, ∀ d ∈ (Command.form e).expressions, Q d
  tests : ∀ t ∈ p.tests, Q t.actual ∧ Q t.expected

section

variable {P : Value → Prop} {Q : Expr → Prop} (hP : Conserved P Q)
  (hstruct : ∀ t : StructType, ∀ b ∈ t.bindings, P b.2)
include hP hstruct

theorem Conserved.maintains : Interpreter.Maintains (fun m => ∀ b ∈ m.globals, P b.2) P
    fun e => ∀ d ∈ (Command.form e).expressions, Q d := by
  intro m e m' v h he hexec
  obtain ⟨rfl, hv⟩ := Interpreter.step_execute hexec
  refine ⟨Interpreter.step_conserved hP hstruct he h, fun w hw => ?_⟩
  obtain ⟨d, hd, heval⟩ := Interpreter.step_value (hv w (Option.mem_toList.mp hw))
  exact Surroundings.eval_conserved (x := ⟨m.globals, m.maxDepth, []⟩) hP
    ⟨h, List.forall_mem_nil _⟩ (he d hd) heval

namespace Session

variable {s : Session} {source : String} {x : Surroundings} {e : Expr} {v : Value}
  (hsource : ∀ p, s.program? source = some p → p.Every Q)
  (hs : ∀ b ∈ s.interpreter.globals, P b.2)
include hsource hs

theorem Executes.conserved {m : Interpreter} (h : s.Executes source m e) :
    (∀ b ∈ m.globals, P b.2) ∧ ∀ d ∈ (Command.form e).expressions, Q d := by
  obtain ⟨p, before, after, values, hp, hsplit, hrun⟩ := h
  have hforms := (hsource p hp).forms
  rw [hsplit] at hforms
  obtain ⟨hbefore, hrest⟩ := List.forall_mem_append.mp hforms
  obtain ⟨-, hlast, -⟩ := (hP.maintains hstruct).runForms hs hbefore
  rw [hrun] at hlast
  exact ⟨hlast, (List.forall_mem_cons.mp hrest).1⟩

theorem Tests.conserved {m : Interpreter} {t : TestCase} (h : s.Tests source m t) :
    (∀ b ∈ m.globals, P b.2) ∧ Q t.actual ∧ Q t.expected := by
  obtain ⟨p, before, after, values, hp, hsplit, hrun, -⟩ := h
  obtain ⟨-, hlast, -⟩ := (hP.maintains hstruct).runForms hs (hsource p hp).forms
  rw [hrun] at hlast
  refine ⟨hlast, (hsource p hp).tests t ?_⟩
  rw [hsplit]
  exact List.mem_append_right _ List.mem_cons_self

/-- Wherever an expression is evaluated, the values in sight have the property. -/
theorem Evaluates.conserved (h : s.Evaluates source x e) :
    Environment.All P ⟨x.globals, x.locals⟩ ∧ Q e := by
  induction h with
  | form h hd =>
    obtain ⟨hglobals, he⟩ := h.conserved hP hstruct hsource hs
    exact ⟨⟨hglobals, List.forall_mem_nil _⟩, he _ hd⟩
  | actual h =>
    obtain ⟨hglobals, hactual, -⟩ := h.conserved hP hstruct hsource hs
    exact ⟨⟨hglobals, List.forall_mem_nil _⟩, hactual⟩
  | expected h _ =>
    obtain ⟨hglobals, -, hexpected⟩ := h.conserved hP hstruct hsource hs
    exact ⟨⟨hglobals, List.forall_mem_nil _⟩, hexpected⟩
  | callee _ ih => exact ⟨ih.1, (hP.call _ _ ih.2).1⟩
  | argument _ _ _ ih =>
    exact ⟨ih.1, (hP.call _ _ ih.2).2 _ (List.mem_append_right _ List.mem_cons_self)⟩
  | question _ ih => exact ⟨ih.1, (hP.branch _ _ _ _ ih.2).1⟩
  | answer _ _ ih => exact ⟨ih.1, (hP.branch _ _ _ _ ih.2).2.1⟩
  | otherwise _ _ ih => exact ⟨ih.1, (hP.branch _ _ _ _ ih.2).2.2 _ rfl⟩
  | body _ hcallee hargs _ ih =>
    obtain ⟨henv, hcall⟩ := ih
    obtain ⟨hq, hqs⟩ := hP.call _ _ hcall
    have hclosure := (hP.closure _ _).mp (Surroundings.eval_conserved hP henv hq hcallee)
    have harguments := Surroundings.evalAll_conserved hP henv hqs hargs
    exact ⟨⟨henv.globals, mem_bind harguments hclosure.2⟩, hclosure.1⟩

/-- A property that evaluation keeps is one of every value that a step comes to. -/
theorem Meets.conserved (h : s.Meets source v) : P v := by
  have hstep := step_maintains (hP.maintains hstruct) (fun p hp => (hsource p hp).forms) hs
  induction h with
  | definition h hb => exact hstep.1 _ h _ hb
  | parameter h hb => exact (h.conserved hP hstruct hsource hs).1.locals _ hb
  | evaluated h hv =>
    obtain ⟨henv, he⟩ := h.conserved hP hstruct hsource hs
    exact Surroundings.eval_conserved hP henv he hv
  | printed h => exact hstep.2.2 _ h
  | first _ ih => exact (hP.parts _ _ ih).1
  | rest _ ih => exact (hP.parts _ _ ih).2
  | field _ hv ih => exact hP.fields _ _ ih _ hv
  | held _ hb ih => exact ((hP.closure _ _).mp ih).2 _ hb

end Session

end

end BeginningStudent
