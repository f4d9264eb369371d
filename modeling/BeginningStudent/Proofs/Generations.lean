import BeginningStudent.Proofs.Pruning
import BeginningStudent.Proofs.WriteOnce
import Mathlib.Data.List.Nodup

/-!
# Generations of structures

Each execution of a `define-struct` makes a type of its own, also when it declares a name again.
Serial numbers only grow along a run (`Interpreter.after_nextSerial`), so the types of two
executions differ. What the procedures of a type do depends on the type alone and not on what its
name stands for by then (`StructType.works`), and who holds a procedure keeps it
(`Interpreter.after_eval`).
-/

namespace BeginningStudent

/-! ### Procedures of a type -/

namespace Value

variable (globals : Bindings) (depth : Nat) (t : StructType) (args : List Value)

theorem call_constructor : (constructor t).call globals depth args = t.construct args := by
  rw [call.eq_def]

theorem call_predicate : (predicate t).call globals depth args = t.test args := by
  rw [call.eq_def]

theorem call_accessor (i : Nat) : (accessor t i).call globals depth args = t.access i args := by
  rw [call.eq_def]

end Value

/-- What surrounds an expression in a run: the definitions of the top level, how many calls may
still be nested, and the parameters around the expression. -/
structure Surroundings where
  globals : Bindings
  depth : Nat
  locals : Bindings

namespace Surroundings

def eval (x : Surroundings) (e : Expr) : Except EvalError Value :=
  e.eval (Value.call x.globals x.depth) ⟨x.globals, x.locals⟩

def evalAll (x : Surroundings) (es : List Expr) : Except EvalError (List Value) :=
  Expr.evalAll (Value.call x.globals x.depth) ⟨x.globals, x.locals⟩ es

variable {x : Surroundings} {e callee : Expr} {es : List Expr} {procedure v : Value}
  {vs : List Value}

theorem eval_call (hcallee : x.eval callee = .ok procedure) (hes : x.evalAll es = .ok vs) :
    x.eval (.call callee es) = procedure.call x.globals x.depth vs := by
  unfold eval evalAll at *
  rw [Expr.eval, hcallee, hes]
  rfl

theorem evalAll_single (he : x.eval e = .ok v) : x.evalAll [e] = .ok [v] := by
  unfold eval at he
  rw [evalAll, Expr.evalAll, he, Expr.evalAll]
  rfl

end Surroundings

namespace StructType

def IsInstance (t : StructType) (v : Value) : Prop := ∃ vs, v = .record t vs

/-- The procedures of a type do their work wherever expressions evaluate to them. -/
structure Works (t : StructType) : Prop where
  construct : ∀ (x : Surroundings) (c : Expr) (es : List Expr) (vs : List Value),
    x.eval c = .ok (.constructor t) → x.evalAll es = .ok vs → vs.length = t.fields.length →
      x.eval (.call c es) = .ok (.record t vs)
  construct_other : ∀ (x : Surroundings) (c : Expr) (es : List Expr) (vs : List Value),
    x.eval c = .ok (.constructor t) → x.evalAll es = .ok vs → vs.length ≠ t.fields.length →
      ∃ err, x.eval (.call c es) = .error err ∧
        err.message = (Arity.exactly t.fields.length).message ("make-" ++ t.name) vs.length
  test : ∀ (x : Surroundings) (p e : Expr) (v : Value),
    x.eval p = .ok (.predicate t) → x.eval e = .ok v → t.IsInstance v →
      x.eval (.call p [e]) = .ok (.boolean true)
  test_other : ∀ (x : Surroundings) (p e : Expr) (v : Value),
    x.eval p = .ok (.predicate t) → x.eval e = .ok v → ¬t.IsInstance v →
      x.eval (.call p [e]) = .ok (.boolean false)
  access : ∀ (x : Surroundings) (a e : Expr) (i : Nat) (vs : List Value) (v : Value),
    x.eval a = .ok (.accessor t i) → x.eval e = .ok (.record t vs) → vs[i]? = some v →
      x.eval (.call a [e]) = .ok v
  access_other : ∀ (x : Surroundings) (a e : Expr) (i : Nat) (field : String) (v : Value),
    x.eval a = .ok (.accessor t i) → t.fields[i]? = some field → x.eval e = .ok v →
      ¬t.IsInstance v → ∃ err, x.eval (.call a [e]) = .error err ∧
        err.message = t.name ++ "-" ++ field ++ ": expects a " ++ t.name ++ ", given " ++ v.text

variable {t u : StructType} {v : Value} {vs : List Value} {i : Nat}

theorem test_instance (h : t.IsInstance v) : t.test [v] = .ok (.boolean true) := by
  obtain ⟨vs, rfl⟩ := h
  simp [test]

theorem test_other (h : ¬t.IsInstance v) : t.test [v] = .ok (.boolean false) := by
  cases v with
  | record u vs =>
    have hne : t ≠ u := by
      rintro rfl
      exact h ⟨vs, rfl⟩
    simp [test, hne]
  | _ => rfl

theorem access_instance (h : vs[i]? = some v) : t.access i [.record t vs] = .ok v := by
  simp [access, h]

theorem access_other (h : ¬t.IsInstance v) : t.access i [v] = .error (.notInstance t i v) := by
  cases v with
  | record u vs =>
    have hne : t ≠ u := by
      rintro rfl
      exact h ⟨vs, rfl⟩
    rw [access, if_neg hne]
  | _ => rfl

theorem works (t : StructType) : t.Works where
  construct x c es vs hc hes hlength := by
    rw [x.eval_call hc hes, Value.call_constructor, StructType.construct, if_pos hlength]
  construct_other x c es vs hc hes hlength := by
    rw [x.eval_call hc hes, Value.call_constructor, StructType.construct, if_neg hlength]
    exact ⟨.constructorArity t vs.length, rfl, rfl⟩
  test x p e v hp he hv := by
    rw [x.eval_call hp (x.evalAll_single he), Value.call_predicate, test_instance hv]
  test_other x p e v hp he hv := by
    rw [x.eval_call hp (x.evalAll_single he), Value.call_predicate, test_other hv]
  access x a e i vs v ha he hv := by
    rw [x.eval_call ha (x.evalAll_single he), Value.call_accessor, access_instance hv]
  access_other x a e i field v ha hfield he hv := by
    rw [x.eval_call ha (x.evalAll_single he), Value.call_accessor, access_other hv]
    have hname : Value.fieldName t i = field := by
      rw [Value.fieldName, List.getD_eq_getElem?_getD, hfield, Option.getD_some]
    refine ⟨_, rfl, ?_⟩
    show t.accessorName (Value.fieldName t i) ++ _ ++ _ ++ _ ++ _ = _
    rw [hname]
    exact rfl

end StructType

/-! ### Runs -/

namespace Interpreter

def after (m : Interpreter) (cs : List Command) : Interpreter := (m.runCommands cs).1

def nextType (m : Interpreter) (s : String) (fields : List String) : StructType :=
  ⟨m.nextSerial, s, fields⟩

def boundBy : Command → List String
  | .form (.define s _) => [s]
  | .form (.defineStruct s fields) => (Definition.struct s fields).names
  | _ => []

variable {m : Interpreter} {c : Command} {cs : List Command} {s x : String}
  {fields : List String} {v : Value}

theorem after_cons : m.after (c :: cs) = (m.step c).1.after cs := rfl

theorem after_append (cs ds : List Command) : m.after (cs ++ ds) = (m.after cs).after ds := by
  induction cs generalizing m with
  | nil => rfl
  | cons c cs ih => rw [List.cons_append, after_cons, ih, after_cons]

theorem step_define (m : Interpreter) (s : String) (e : Expr) :
    (m.step (.form (.define s e))).1 = m ∨
      ∃ v, m.eval e = .ok v ∧ (m.step (.form (.define s e))).1 = m.bind s v := by
  rw [step, execute]
  cases m.eval e with
  | error err => exact .inl rfl
  | ok v => exact .inr ⟨v, rfl, rfl⟩

/-- A command leaves the state as it is, or binds a name to the value of an expression, or makes a
type. -/
theorem step_cases (m : Interpreter) (c : Command) :
    (m.step c).1 = m ∨
      (∃ s e v, c = .form (.define s e) ∧ m.eval e = .ok v ∧ (m.step c).1 = m.bind s v) ∨
      ∃ s fields, c = .form (.defineStruct s fields) ∧ (m.step c).1 = m.defineStruct s fields := by
  by_cases hc : c.isDefinition = false
  · exact .inl (step_of_not_definition hc)
  cases c with
  | test t => exact absurd rfl hc
  | form e =>
    cases e with
    | define s e =>
      rcases m.step_define s e with h | ⟨v, hv, h⟩
      · exact .inl h
      · exact .inr (.inl ⟨s, e, v, rfl, hv, h⟩)
    | defineStruct s fields => exact .inr (.inr ⟨s, fields, rfl, rfl⟩)
    | _ => exact absurd rfl hc

theorem step_nextSerial (m : Interpreter) (c : Command) :
    m.nextSerial ≤ (m.step c).1.nextSerial := by
  rcases m.step_cases c with h | ⟨s, e, v, -, -, h⟩ | ⟨s, fields, -, h⟩
  · exact Nat.le_of_eq (by rw [h])
  · have hserial : (m.bind s v).nextSerial = m.nextSerial := rfl
    exact Nat.le_of_eq (by rw [h, hserial])
  · rw [h]
    exact Nat.le_succ _

/-- Serial numbers are never given again. -/
theorem after_nextSerial (m : Interpreter) (cs : List Command) :
    m.nextSerial ≤ (m.after cs).nextSerial := by
  induction cs generalizing m with
  | nil => exact Nat.le_refl _
  | cons c cs ih => exact Nat.le_trans (m.step_nextSerial c) (ih _)

theorem lookup_defineStruct (h : x ∉ (Definition.struct s fields).names) :
    (m.defineStruct s fields).globals.lookup x = m.globals.lookup x := by
  obtain ⟨bs, hglobals, hnames⟩ := m.defineStruct_globals s fields
  rw [hglobals, List.lookup_append, SymbolTable.lookup_eq_none.mpr, Option.none_or]
  rwa [List.map_reverse, List.mem_reverse, hnames]

theorem step_lookup (h : x ∉ boundBy c) :
    (m.step c).1.globals.lookup x = m.globals.lookup x := by
  rcases m.step_cases c with h' | ⟨s, e, v, rfl, -, h'⟩ | ⟨s, fields, rfl, h'⟩
  · rw [h']
  · have hne : (x == s) = false := by
      rw [beq_eq_false_iff_ne]
      rintro rfl
      exact h (List.mem_singleton_self x)
    rw [h', bind, List.lookup_cons, hne]
  · rw [h', lookup_defineStruct h]

theorem after_eval (h : ∀ c ∈ cs, x ∉ boundBy c) (hx : m.eval (.identifier x) = .ok v) :
    (m.after cs).eval (.identifier x) = .ok v := by
  induction cs generalizing m with
  | nil => exact hx
  | cons c cs ih =>
    obtain ⟨hc, hcs⟩ := List.forall_mem_cons.mp h
    have hlookup := step_lookup (m := m) hc
    rw [after_cons]
    generalize (m.step c).1 = m' at hlookup
    refine ih hcs ?_
    rw [eval_identifier_iff] at hx ⊢
    rw [hlookup, hx]

/-! ### Types of a run -/

theorem lookup_of_mem {bs : Bindings} (hnames : (bs.map Prod.fst).Nodup) (h : (x, v) ∈ bs) :
    bs.lookup x = some v := by
  induction bs with
  | nil => cases h
  | cons b bs ih =>
    obtain ⟨hb, hbs⟩ := List.nodup_cons.mp hnames
    rcases List.mem_cons.mp h with rfl | h
    · exact List.lookup_cons_self
    · have hne : (x == b.1) = false := by
        rw [beq_eq_false_iff_ne]
        rintro rfl
        exact hb (List.mem_map.mpr ⟨_, h, rfl⟩)
      rw [List.lookup_cons, hne, ih hbs h]

theorem bindings_names (m : Interpreter) (s : String) (fields : List String) :
    (m.nextType s fields).bindings.map Prod.fst = (Definition.struct s fields).names := by
  have hnames := congrArg (List.map Prod.fst) (m.nextType s fields).rows_names
  rw [← StructType.rows_bindings, List.map_map]
  rw [List.map_map] at hnames
  exact hnames

theorem eval_defineStruct (hnames : (Definition.struct s fields).names.Nodup)
    (h : (x, v) ∈ (m.nextType s fields).bindings) :
    (m.defineStruct s fields).eval (.identifier x) = .ok v := by
  have hlookup : (m.nextType s fields).bindings.reverse.lookup x = some v := by
    refine lookup_of_mem ?_ (List.mem_reverse.mpr h)
    rw [List.map_reverse, bindings_names]
    exact List.nodup_reverse.mpr hnames
  have hglobals : (m.defineStruct s fields).globals =
      (m.nextType s fields).bindings.reverse ++ m.globals := rfl
  rw [eval_identifier_iff, hglobals, List.lookup_append, hlookup]
  rfl

theorem nextType_ne (m : Interpreter) (s : String) (fields : List String) (cs : List Command)
    (s' : String) (fields' : List String) :
    ((m.defineStruct s fields).after cs).nextType s' fields' ≠ m.nextType s fields := by
  intro heq
  have hserial : ((m.defineStruct s fields).after cs).nextSerial = m.nextSerial :=
    congrArg StructType.serial heq
  have hle : m.nextSerial + 1 ≤ ((m.defineStruct s fields).after cs).nextSerial :=
    (m.defineStruct s fields).after_nextSerial cs
  omega

theorem not_isInstance_of_ne {t u : StructType} (h : u ≠ t) (vs : List Value) :
    ¬t.IsInstance (.record u vs) := by
  rintro ⟨ws, hws⟩
  exact h (Value.record.inj hws).1

/-- The definition of a structure succeeds in every state of a run, and its names stand for the
procedures of a new type. These work for the instances of the type, wherever they are called, and
for nothing else. No instance that another definition of the run has made or will make is one of
them. Who holds a procedure or an instance keeps it, whatever is declared again. -/
theorem structures_are_generative {maxDepth : Nat} {before : List Command} {s : String}
    {fields : List String} {m m' : Interpreter} {t : StructType}
    (hnames : (Definition.struct s fields).names.Nodup)
    (hm : (start maxDepth).after before = m) (ht : m.nextType s fields = t)
    (hm' : m.after [.form (.defineStruct s fields)] = m') :
    (m.step (.form (.defineStruct s fields))).2 = .ok .defined ∧
    m'.eval (.identifier ("make-" ++ s)) = .ok (.constructor t) ∧
    m'.eval (.identifier (s ++ "?")) = .ok (.predicate t) ∧
    (∀ i field, fields[i]? = some field →
      m'.eval (.identifier (s ++ "-" ++ field)) = .ok (.accessor t i)) ∧
    t.Works ∧
    (∀ earlier later s' fields' vs, before = earlier ++ .form (.defineStruct s' fields') :: later →
      ¬t.IsInstance (.record (((start maxDepth).after earlier).nextType s' fields') vs)) ∧
    (∀ later s' fields' vs, ¬t.IsInstance (.record ((m'.after later).nextType s' fields') vs)) ∧
    ∀ later x v, (∀ c ∈ later, x ∉ boundBy c) → m'.eval (.identifier x) = .ok v →
      (m'.after later).eval (.identifier x) = .ok v := by
  have hdefined : m' = m.defineStruct s fields := hm'.symm
  subst ht
  rw [hdefined]
  refine ⟨rfl, eval_defineStruct hnames ?_, eval_defineStruct hnames ?_, fun i field hfield => ?_,
    StructType.works _, fun earlier later s' fields' vs hbefore => ?_,
    fun later s' fields' vs => ?_, fun later x v hx hv => after_eval hx hv⟩
  · simp [StructType.bindings, StructType.constructorName, nextType]
  · simp [StructType.bindings, StructType.predicateName, nextType]
  · refine eval_defineStruct hnames ?_
    have hmem : (s ++ "-" ++ field, Value.accessor (m.nextType s fields) i) ∈
        fields.mapIdx fun i field =>
          ((m.nextType s fields).accessorName field, .accessor (m.nextType s fields) i) := by
      obtain ⟨hi, rfl⟩ := List.getElem?_eq_some_iff.mp hfield
      exact List.mem_mapIdx.mpr ⟨i, hi, rfl⟩
    simp only [StructType.bindings, List.mem_cons]
    exact .inr (.inr (.inr hmem))
  · have hlast : m = (((start maxDepth).after earlier).defineStruct s' fields').after later := by
      rw [← hm, hbefore, after_append]
      rfl
    rw [hlast]
    exact not_isInstance_of_ne (nextType_ne _ _ _ _ _ _).symm vs
  · exact not_isInstance_of_ne (nextType_ne _ _ _ _ _ _) vs

def firstGeneration : List Command :=
  [.form (.defineStruct "p" ["x"]),
    .form (.define "old" (.call (.identifier "make-p") [.boolean true])),
    .form (.define "old-x" (.identifier "p-x"))]

/-- When the structure is declared again, the instance is none of the new type, but the accessor
that has been held still works for it. -/
theorem structures_are_generative_redeclared :
    let m := ((start 1).after firstGeneration).after [.form (.defineStruct "p" ["x"])]
    m.eval (.call (.identifier "p?") [.identifier "old"]) = .ok (.boolean false) ∧
      (∃ err, m.eval (.call (.identifier "p-x") [.identifier "old"]) = .error err ∧
        err.message = "p-x: expects a p, given (make-p #true)") ∧
      m.eval (.call (.identifier "old-x") [.identifier "old"]) = .ok (.boolean true) := by
  intro m
  have hnames : (Definition.struct "p" ["x"]).names.Nodup := by decide
  obtain ⟨-, -, hpredicate, haccessor, hworks, hearlier, -, -⟩ :=
    @structures_are_generative 1 firstGeneration "p" ["x"] _ m _ hnames rfl rfl rfl
  have hold : m.eval (.identifier "old") = .ok (.record ⟨0, "p", ["x"]⟩ [.boolean true]) := rfl
  have hforeign := hearlier [] _ "p" ["x"] [.boolean true] rfl
  let x : Surroundings := ⟨m.globals, m.maxDepth, []⟩
  refine ⟨hworks.test_other x _ _ _ hpredicate hold hforeign, ?_, ?_⟩
  · obtain ⟨err, herr, hmessage⟩ :=
      hworks.access_other x _ _ 0 "x" _ (haccessor 0 "x" rfl) rfl hold hforeign
    exact ⟨err, herr, hmessage.trans (by decide +kernel)⟩
  · have holdAccessor : m.eval (.identifier "old-x") = .ok (.accessor ⟨0, "p", ["x"]⟩ 0) := rfl
    exact (StructType.works _).access x _ _ 0 _ _ holdAccessor hold rfl

end Interpreter

end BeginningStudent
