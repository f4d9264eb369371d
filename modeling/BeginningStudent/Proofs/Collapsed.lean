import BeginningStudent.Proofs.Clean
import BeginningStudent.Proofs.SourceValues

/-!
# Complex numbers without an imaginary part

A complex number with the exact imaginary part zero stands for a real, and none is ever made: not by
a number literal, not by an operation on numbers, and so by no evaluation of expressions whose
literals are none (`Expr.collapsed_conserved`). A session reads its literals from text, so no value
of any session holds such a number (`numbers_collapsed`).
-/

namespace BeginningStudent

/-! ### Numbers in values and expressions -/

inductive Datum.Mentions (z : Number) : Datum → Prop
  | number : Mentions z (.number z)
  | first {first rest} (h : Mentions z first) : Mentions z (.pair first rest)
  | rest {first rest} (h : Mentions z rest) : Mentions z (.pair first rest)

/-- The number occurs in a literal of the expression. -/
inductive Expr.Mentions (z : Number) : Expr → Prop
  | literal {d} (h : d.Mentions z) : Mentions z (.literal d)
  | quoted {d} (h : d.Mentions z) : Mentions z (.quoted d)
  | define {s e} (h : Mentions z e) : Mentions z (.define s e)
  | lambda {site name params body} (h : Mentions z body) :
    Mentions z (.lambda site name params body)
  | callee {callee arguments} (h : Mentions z callee) : Mentions z (.call callee arguments)
  | argument {callee arguments e} (he : e ∈ arguments) (h : Mentions z e) :
    Mentions z (.call callee arguments)
  | question {form question answer otherwise} (h : Mentions z question) :
    Mentions z (.branch form question answer otherwise)
  | answer {form question answer otherwise} (h : Mentions z answer) :
    Mentions z (.branch form question answer otherwise)
  | otherwise {form question answer e} (h : Mentions z e) :
    Mentions z (.branch form question answer (some e))

/-- The number occurs in the value: in its parts, or in the code or the bindings of a closure. -/
inductive Value.Mentions (z : Number) : Value → Prop
  | number : Mentions z (.number z)
  | first {first rest} (h : Mentions z first) : Mentions z (.pair first rest)
  | rest {first rest} (h : Mentions z rest) : Mentions z (.pair first rest)
  | field {t fields v} (hv : v ∈ fields) (h : Mentions z v) : Mentions z (.record t fields)
  | code {code held} (h : code.body.Mentions z) : Mentions z (.closure code held)
  | held {code locals b} (hb : b ∈ locals) (h : Mentions z b.2) :
    Mentions z (.closure code (.bindings locals))

/-- No complex number of the expression has an exact zero as its imaginary part. -/
def Expr.Collapsed (e : Expr) : Prop := ∀ z, e.Mentions z → z.Collapsed

/-- No complex number of the value has an exact zero as its imaginary part. -/
def Value.Collapsed (v : Value) : Prop := ∀ z, v.Mentions z → z.Collapsed

def Command.Collapsed (c : Command) : Prop := ∀ e ∈ c.expressions, e.Collapsed

/-! ### Evaluation -/

namespace Value

theorem Mentions.ofDatum {z : Number} {d : Datum} (h : (Value.ofDatum d).Mentions z) :
    d.Mentions z := by
  induction d with
  | pair first rest ihfirst ihrest =>
    cases h with
    | first h => exact .first (ihfirst h)
    | rest h => exact .rest (ihrest h)
  | number n =>
    cases h
    exact .number
  | _ => cases h

theorem Simple.collapsed {v : Value} (hv : v.Simple) : v.Collapsed := by
  intro z hz
  cases hz with
  | number => exact hv
  | _ => cases hv

theorem collapsed_closure_iff {code : Lambda} {locals : Bindings} :
    (closure code (.bindings locals)).Collapsed ↔
      code.body.Collapsed ∧ ∀ b ∈ locals, b.2.Collapsed := by
  constructor
  · intro h
    exact ⟨fun z hz => h z (.code hz), fun b hb z hz => h z (.held hb hz)⟩
  · intro h z hz
    cases hz with
    | code hz => exact h.1 z hz
    | held hb hz => exact h.2 _ hb z hz

theorem collapsed_binding (t : StructType) : ∀ b ∈ t.bindings, b.2.Collapsed := by
  intro b hb
  simp only [StructType.bindings, List.mem_cons, List.mem_mapIdx] at hb
  rcases hb with rfl | rfl | rfl | ⟨i, hi, rfl⟩ <;> exact fun z hz => by cases hz

end Value

/-- Evaluation makes no complex number that stands for a real. -/
theorem Expr.collapsed_conserved : Conserved Value.Collapsed Expr.Collapsed where
  simple _ hv := hv.collapsed
  pair _ _ hfirst hrest _ z hz := by
    cases hz with
    | first hz => exact hfirst z hz
    | rest hz => exact hrest z hz
  parts _ _ h := ⟨fun z hz => h z (.first hz), fun z hz => h z (.rest hz)⟩
  primitive _ z hz := by cases hz
  instances _ _ _ _ hfields z hz := by
    cases hz with
    | field hv hz => exact hfields _ hv z hz
  fields _ _ h v hv z hz := h z (.field hv hz)
  closure _ _ := Value.collapsed_closure_iff
  literal _ h z hz := h z (.literal hz.ofDatum)
  quoted _ h z hz := h z (.quoted hz.ofDatum)
  lambda _ _ _ _ h z hz := h z (.lambda hz)
  call _ _ h := ⟨fun z hz => h z (.callee hz), fun _ he z hz => h z (.argument he hz)⟩
  branch _ _ _ _ h := ⟨fun z hz => h z (.question hz), fun z hz => h z (.answer hz),
    fun _ he z hz => h z (by cases he; exact .otherwise hz)⟩

theorem Value.ReachedBy.collapsed {v : Value} (h : v.ReachedBy Expr.Collapsed) : v.Collapsed :=
  h.conserved Expr.collapsed_conserved collapsed_binding

/-! ### Sessions -/

theorem Expr.Clean.collapsed {e : Expr} (he : e.Clean) : e.Collapsed := by
  intro z hz
  induction hz with
  | literal h =>
    cases he with
    | literal hd =>
      cases h with
      | number => exact hd
      | _ => cases hd
  | quoted h =>
    cases he with
    | quoted hd =>
      cases h with
      | number => exact hd
      | _ => cases hd
  | define _ ih =>
    cases he with
    | define he => exact ih he
  | lambda _ ih =>
    cases he with
    | lambda hb => exact ih hb
  | callee _ ih =>
    cases he with
    | call hc ha => exact ih hc
  | argument hmem _ ih =>
    cases he with
    | call hc ha => exact ih (ha _ hmem)
  | question _ ih =>
    cases he with
    | branch hq ha ho => exact ih hq
  | answer _ ih =>
    cases he with
    | branch hq ha ho => exact ih ha
  | otherwise _ ih =>
    cases he with
    | branch hq ha ho => exact ih (ho _ rfl)

theorem Expr.Collapsed.form {e : Expr} (he : e.Collapsed) : (Command.form e).Collapsed := by
  intro e' he'
  cases e with
  | define s e =>
    obtain rfl := List.mem_singleton.mp he'
    exact fun z hz => he z (.define hz)
  | defineStruct s fields => cases he'
  | _ =>
    obtain rfl := List.mem_singleton.mp he'
    exact he

namespace Interpreter

def LeftCollapsed (m : Interpreter) : Prop :=
  ∃ maxDepth cs, (∀ c ∈ cs, Command.Collapsed c) ∧ (start maxDepth).after cs = m

variable {m m' : Interpreter} {e : Expr} {es : List Expr}

theorem LeftCollapsed.surroundings (h : m.LeftCollapsed) :
    Surroundings.ReachedBy Expr.Collapsed ⟨m.globals, m.maxDepth, []⟩ := by
  obtain ⟨maxDepth, cs, hcs, h⟩ := h
  exact .top hcs h

theorem LeftCollapsed.step (h : m.LeftCollapsed) {c : Command} (hc : c.Collapsed) :
    (m.step c).1.LeftCollapsed := by
  obtain ⟨maxDepth, cs, hcs, rfl⟩ := h
  refine ⟨maxDepth, cs ++ [c], List.forall_mem_append.mpr ⟨hcs, ?_⟩, after_append cs [c]⟩
  exact List.forall_mem_singleton.mpr hc

theorem LeftCollapsed.execute (h : m.LeftCollapsed) (he : e.Collapsed) {v : Option Value}
    (hexec : m.execute e = .ok (m', v)) :
    m'.LeftCollapsed ∧ ∀ w ∈ v.toList, w.Collapsed := by
  obtain ⟨hm', hv⟩ := step_execute hexec
  refine ⟨hm' ▸ h.step he.form, fun w hw => ?_⟩
  obtain ⟨e', he', hvalue⟩ := step_value (hv w (Option.mem_toList.mp hw))
  exact Value.ReachedBy.collapsed (.evaluated h.surroundings (he.form e' he') hvalue)

end Interpreter

namespace Session

variable {s : Session} {source : String}

theorem program?_collapsed {p : Program} (h : s.program? source = some p) :
    (∀ e ∈ p.forms, e.Collapsed) ∧ ∀ t ∈ p.tests, t.actual.Collapsed ∧ t.expected.Collapsed := by
  obtain ⟨forms, names, hread, hresolve⟩ := program?_eq_some.mp h
  obtain ⟨hforms, htests⟩ := SymbolTable.resolveProgram_clean (readSource_clean hread) hresolve
  exact ⟨fun e he => (hforms e he).collapsed,
    fun t ht => ⟨(htests t ht).1.collapsed, (htests t ht).2.collapsed⟩⟩

theorem run_collapsed (h : s.interpreter.LeftCollapsed) (sources : List String) :
    (∀ m ∈ s.history sources, m.LeftCollapsed) ∧
      ∀ r ∈ (s.run sources).2, ∀ v ∈ r.values, v.Collapsed := by
  have hmaintains : Interpreter.Maintains Interpreter.LeftCollapsed Value.Collapsed
      Expr.Collapsed :=
    fun _ _ _ _ h he hexec => h.execute he hexec
  obtain ⟨hhistory, -, hvalues⟩ := run_maintains hmaintains
    (fun _ _ _ hp => (program?_collapsed hp).1) h sources
  exact ⟨hhistory, hvalues⟩

end Session

/-! ### All numbers -/

/-- No number is complex with the exact imaginary part zero: none that a text spells, that an
operation on numbers gives, or that occurs in a value of a run of commands with such literals or of a
session. -/
theorem numbers_collapsed :
    (∀ text z, Literal.number? text = some (.ok z) → z.Collapsed) ∧
    (∀ re im, (Number.ofParts re im).Collapsed) ∧
    (∀ z, (Number.ofComplexFloat z).Collapsed) ∧
    (∀ z w : Number, (z.add w).Collapsed ∧ (z.sub w).Collapsed ∧ (z.mul w).Collapsed ∧
      Yields Number.Collapsed (fun _ => True) (z.div w) ∧
      Yields Number.Collapsed (fun _ => True) (z.expt w)) ∧
    (∀ z : Number, z.negate.Collapsed ∧ z.sqrt.Collapsed ∧ z.magnitude.Collapsed ∧
      z.toInexact.Collapsed ∧ Yields Number.Collapsed (fun _ => True) z.invert ∧
      Yields Number.Collapsed (fun _ => True) z.toExact) ∧
    (∀ maxDepth cs, (∀ c ∈ cs, Command.Collapsed c) →
      (∀ b ∈ ((Interpreter.start maxDepth).after cs).globals, b.2.Collapsed) ∧
      ∀ v, .ok (.value v) ∈ ((Interpreter.start maxDepth).runCommands cs).2 → v.Collapsed) ∧
    (∀ maxDepth sources,
      (∀ m ∈ (Session.start maxDepth).history sources,
        Surroundings.ReachedBy Expr.Collapsed ⟨m.globals, m.maxDepth, []⟩) ∧
      (∀ source p, ((Session.start maxDepth).run sources).1.program? source = some p →
        (∀ e ∈ p.forms, e.Collapsed) ∧
        ∀ t ∈ p.tests, t.actual.Collapsed ∧ t.expected.Collapsed) ∧
      ∀ r ∈ ((Session.start maxDepth).run sources).2, ∀ v ∈ r.values, v.Collapsed) ∧
    ∀ v : Value, v.ReachedBy Expr.Collapsed → v.Collapsed := by
  refine ⟨fun _ _ => Number.collapsed_number?, Number.collapsed_ofParts,
    fun z => Number.collapsed_ofParts _ _, fun z w => ?_, fun z => ?_, fun maxDepth cs hcs => ?_,
    fun maxDepth sources => ?_, fun _ => Value.ReachedBy.collapsed⟩
  · exact ⟨Number.collapsed_add z w, Number.collapsed_add z _, Number.collapsed_mul z w,
      Number.collapsed_div z w, Number.collapsed_expt z w⟩
  · exact ⟨Number.collapsed_negate z, Number.collapsed_sqrt z, Number.collapsed_magnitude z,
      Number.collapsed_toInexact z, Number.collapsed_invert z, Number.collapsed_toExact z⟩
  · constructor
    · exact Interpreter.after_conserved Expr.collapsed_conserved Value.collapsed_binding
        (List.forall_mem_nil _) hcs
    · exact fun v hv => (Interpreter.runCommands_reachedBy hcs hv).collapsed
  · have hstart : (Session.start maxDepth).interpreter.LeftCollapsed :=
      ⟨maxDepth, [], List.forall_mem_nil _, rfl⟩
    obtain ⟨hhistory, hresults⟩ := Session.run_collapsed hstart sources
    exact ⟨fun m hm => (hhistory m hm).surroundings, fun source p => Session.program?_collapsed,
      hresults⟩

/-- The root of `-1` is complex, and its imaginary part is not zero. -/
theorem numbers_collapsed_root :
    (Value.number (.complex (.ofInt 0) (.ofInt 1))).Collapsed := by
  let command : Command :=
    .form (.call (.identifier "sqrt") [.literal (.number (.ofInt (-1)))])
  have hcommand : command.Collapsed := by
    refine Expr.Clean.collapsed (.call .identifier ?_) |>.form
    exact List.forall_mem_singleton.mpr (.literal trivial)
  exact (numbers_collapsed.2.2.2.2.2.1 1 [command] (List.forall_mem_singleton.mpr hcommand)).2 _
    (List.mem_singleton.mpr rfl)

end BeginningStudent
