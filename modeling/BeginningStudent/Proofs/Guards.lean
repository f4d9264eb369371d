import BeginningStudent.Proofs.Frames
import BeginningStudent.Proofs.Yields
import Mathlib.Data.List.Basic

/-!
# Guarded evaluation

Evaluation in which every access is checked: arguments, fields and the names of fields are taken by
their indices, a string is cut where two indices say, an instance is made of as many fields as its
type has, and the counter of nested calls goes down. An access that is out of range is a `Breach`,
which is none of the errors of a program.

The numbers of arguments that a primitive takes (`Primitive.declaredArity`) and the indices at which
it then takes them (`Primitive.access`) are two tables here, so that a row of one may well not fit
that of the other.
-/

namespace BeginningStudent

inductive Breach where
  /-- There is no item with the index. -/
  | item (index count : Nat)
  /-- There are no items from the index on. -/
  | items (start count : Nat)
  | slice (start stop count : Nat)
  /-- An instance gets a wrong number of fields. -/
  | fields (given count : Nat)
  /-- The counter of nested calls is zero already. -/
  | depth
deriving DecidableEq, Repr

inductive Halt (ε : Type) where
  | error (e : ε)
  | breach (b : Breach)

abbrev Guarded (ε α : Type) := Except (Halt ε) α

namespace Guarded

variable {ε ε' α β : Type}

def ofResult : Except ε α → Guarded ε α
  | .ok a => .ok a
  | .error e => .error (.error e)

def mapError (f : ε → ε') : Guarded ε α → Guarded ε' α
  | .ok a => .ok a
  | .error (.error e) => .error (.error (f e))
  | .error (.breach b) => .error (.breach b)

def item (xs : List α) (i : Nat) : Guarded ε α :=
  match xs[i]? with
  | some x => .ok x
  | none => .error (.breach (.item i xs.length))

def items (xs : List α) (i : Nat) : Guarded ε (List α) :=
  if i ≤ xs.length then .ok (xs.drop i) else .error (.breach (.items i xs.length))

def slice (xs : List α) (i j : Nat) : Guarded ε (List α) :=
  if i ≤ j ∧ j ≤ xs.length then .ok ((xs.drop i).take (j - i))
  else .error (.breach (.slice i j xs.length))

def instanceOf (t : StructType) (fields : List Value) : Guarded ε Value :=
  if fields.length = t.fields.length then .ok (.record t fields)
  else .error (.breach (.fields fields.length t.fields.length))

end Guarded

/-! ### Primitives -/

/-- How a primitive takes its arguments. -/
inductive Access where
  /-- One after the other, without an index. -/
  | each
  /-- The one at index 0. -/
  | first
  /-- Those at the indices 0 and 1. -/
  | firstTwo
  /-- The one at index 0, and those from index 1 on. -/
  | firstAndRest
  /-- A string and the indices of a slice of it, of which the last may be missing. -/
  | slice

namespace Primitive

def declaredArity : Primitive → Arity
  | .stringAppend | .list => .atLeast 0
  | .sub | .max | .min => .atLeast 1
  | .add | .mul | .div | .numEq | .less | .greater | .lessEq | .greaterEq | .stringEq
  | .stringLess | .substring => .atLeast 2
  | .expt | .quotient | .remainder | .modulo | .booleanEq | .symbolEq | .cons | .equal => .exactly 2
  | _ => .exactly 1

def access : Primitive → Access
  | .stringAppend | .list => .each
  | .expt | .quotient | .remainder | .modulo | .cons | .equal => .firstTwo
  | .add | .sub | .mul | .div | .numEq | .less | .greater | .lessEq | .greaterEq | .max | .min
  | .booleanEq | .stringEq | .stringLess | .symbolEq => .firstAndRest
  | .substring => .slice
  | _ => .first

end Primitive

namespace Guarded

def stop (cs : List Char) : Option Value → Guarded Fault Nat
  | some v => ofResult (Argument.natural v)
  | none => .ok cs.length

def cut (cs : List Char) (i j : Nat) : Guarded Fault Value :=
  if cs.length < i then .error (.error (.startOutOfRange i))
  else if j < i ∨ cs.length < j then .error (.error (.endOutOfRange j))
  else do return .string (String.ofList (← slice cs i j))

def substring (args : List Value) : Guarded Fault Value :=
  if 3 < args.length then .error (.error (.arity (.exactly 3) args.length))
  else do
    let cs := (← ofResult (Argument.string (← item args 0))).toList
    let i ← ofResult (Argument.natural (← item args 1))
    let j ← stop cs args[2]?
    cut cs i j

def body (p : Primitive) (args : List Value) : Access → Guarded Fault Value
  | .each => ofResult (p.apply args)
  | .first => do ofResult (p.apply [← item args 0])
  | .firstTwo => do ofResult (p.apply [← item args 0, ← item args 1])
  | .firstAndRest => do ofResult (p.apply ((← item args 0) :: (← items args 1)))
  | .slice => substring args

def apply (p : Primitive) (args : List Value) : Guarded Fault Value :=
  if p.declaredArity.accepts args.length then body p args p.access
  else .error (.error (.arity p.declaredArity args.length))

/-! Accesses that are in range -/

variable {ε α β : Type} {p : Primitive} {args : List Value}

theorem ofResult_bind (x : Except ε α) (f : α → Except ε β) :
    ofResult (x >>= f) = ofResult x >>= fun a => ofResult (f a) := by
  cases x <;> rfl

theorem item_of_getElem? {xs : List α} {i : Nat} {x : α} (h : xs[i]? = some x) :
    (item xs i : Guarded ε α) = .ok x := by
  rw [item, h]

theorem cut_eq (cs : List Char) (i j : Nat) :
    cut cs i j = ofResult ((fun cs => .string (String.ofList cs)) <$> Operation.slice cs i j) := by
  unfold cut Operation.slice
  split
  · rfl
  · split
    · rfl
    · rw [slice, if_pos (by omega)]
      rfl

theorem substring_bind {text start : Value} {others : List Value} (h : others.length ≤ 1) :
    substring (text :: start :: others) = ofResult (Argument.string text) >>= fun s =>
      ofResult (Argument.natural start) >>= fun i =>
        stop s.toList others[0]? >>= fun j => cut s.toList i j := by
  rw [substring, if_neg (by simp; omega)]
  rfl

/-- A slice is taken of a string only where it lies in the string. -/
theorem substring_eq (h : 2 ≤ args.length) :
    substring args = ofResult (Primitive.substring.apply args) := by
  obtain _ | ⟨text, _ | ⟨start, others⟩⟩ := args
  · cases h
  · exact absurd h (by simp)
  change _ = ofResult (Operation.substring text start others)
  obtain _ | ⟨last, _ | ⟨other, others⟩⟩ := others
  · rw [substring_bind (by simp), Operation.substring, ofResult_bind]
    refine bind_congr fun s => ?_
    rw [ofResult_bind]
    refine bind_congr fun i => ?_
    rw [bind_pure_comp]
    exact cut_eq _ _ _
  · rw [substring_bind (by simp), Operation.substring, ofResult_bind]
    refine bind_congr fun s => ?_
    rw [ofResult_bind]
    refine bind_congr fun i => ?_
    rw [ofResult_bind]
    refine bind_congr fun j => ?_
    rw [bind_pure_comp]
    exact cut_eq _ _ _
  · rw [substring, if_pos (by simp)]
    rfl

theorem declaredArity_eq (p : Primitive) : p.declaredArity = p.arity := by
  cases p <;> rfl

/-- The access takes all arguments, and no others, when there are `n` of them. -/
def TakesAll (n : Nat) : Access → Prop
  | .each => True
  | .first => n = 1
  | .firstTwo => n = 2
  | .firstAndRest => 1 ≤ n
  | .slice => 2 ≤ n

/-- The numbers of arguments that are declared for a primitive fit the indices that it uses. -/
theorem takesAll_of_accepts {n : Nat} (h : p.declaredArity.accepts n = true) :
    TakesAll n p.access := by
  cases p <;>
    simp only [Primitive.declaredArity, Primitive.access, Arity.accepts, TakesAll, beq_iff_eq,
      decide_eq_true_eq] at h ⊢ <;> omega

theorem body_eq {a : Access} (h : TakesAll args.length a) (ha : a = .slice → p = .substring) :
    body p args a = ofResult (p.apply args) := by
  cases a with
  | each => rfl
  | first =>
    obtain ⟨v, rfl⟩ := List.length_eq_one_iff.mp h
    rfl
  | firstTwo =>
    obtain ⟨v, w, rfl⟩ := List.length_eq_two.mp h
    rfl
  | firstAndRest =>
    obtain ⟨v, others, rfl⟩ := List.exists_cons_of_length_pos h
    rw [body, items, if_pos (by simp)]
    rfl
  | slice =>
    obtain rfl := ha rfl
    exact substring_eq h

/-- No primitive makes an access that is out of range, whatever its arguments are. -/
theorem apply_eq (p : Primitive) (args : List Value) : apply p args = ofResult (p.apply args) := by
  unfold apply
  cases h : p.declaredArity.accepts args.length with
  | true =>
    rw [if_pos rfl]
    exact body_eq (takesAll_of_accepts h) fun ha => by cases p <;> first | rfl | cases ha
  | false =>
    rw [declaredArity_eq] at h ⊢
    rw [if_neg Bool.false_ne_true, Primitive.apply, Operation.apply_eq_arity h]
    rfl

/-- Without the check of their number, an access to missing arguments would be out of range. -/
example : body .cons [.empty] .firstTwo = .error (.breach (.item 1 1)) := rfl

end Guarded

/-! ### Procedures of structure types -/

namespace Guarded

def construct (t : StructType) (args : List Value) : Guarded EvalError Value :=
  if args.length = t.fields.length then instanceOf t args
  else .error (.error (.constructorArity t args.length))

def test (t : StructType) (args : List Value) : Guarded EvalError Value :=
  if args.length = 1 then do
    match ← item args 0 with
    | .record u _ => return .boolean (t == u)
    | _ => return .boolean false
  else .error (.error (.arity t.predicateName (.exactly 1) args.length))

/-- The field with the given index of an instance of the type. The accessor is named after the field
before anything is known about the arguments. -/
def access (t : StructType) (index : Nat) (args : List Value) : Guarded EvalError Value := do
  let field ← item t.fields index
  if args.length = 1 then
    match ← item args 0 with
    | .record u fields =>
      if t = u then item fields index
      else .error (.error (.notInstance t index (.record u fields)))
    | v => .error (.error (.notInstance t index v))
  else .error (.error (.arity (t.accessorName field) (.exactly 1) args.length))

def call (procedure : Value) (args : List Value) : Guarded EvalError Value :=
  match procedure with
  | .primitive p => (apply p args).mapError (.primitive p)
  | .constructor t => construct t args
  | .predicate t => test t args
  | .accessor t i => access t i args
  | v => ofResult (v.call [] 0 args)

/-! Calls that are in range -/

variable {t : StructType} {i : Nat} {args : List Value}

theorem construct_eq (t : StructType) (args : List Value) :
    construct t args = ofResult (t.construct args) := by
  unfold construct StructType.construct
  split
  · rw [instanceOf, if_pos ‹_›]
    rfl
  · rfl

theorem test_eq (t : StructType) (args : List Value) : test t args = ofResult (t.test args) := by
  unfold test
  by_cases h : args.length = 1
  · obtain ⟨v, rfl⟩ := List.length_eq_one_iff.mp h
    rw [if_pos h]
    cases v <;> rfl
  · rw [if_neg h]
    obtain _ | ⟨v, _ | ⟨w, rest⟩⟩ := args
    · rfl
    · exact absurd rfl h
    · cases v <;> rfl

/-- An accessor makes no access that is out of range when its index is below the number of fields of
its type and an argument of this type has as many. -/
theorem access_eq (hi : i < t.fields.length)
    (hargs : ∀ fields, args = [.record t fields] → fields.length = t.fields.length) :
    access t i args = ofResult (t.access i args) := by
  have hfield : t.fields[i]? = some t.fields[i] := List.getElem?_eq_getElem hi
  have hname : Value.fieldName t i = t.fields[i] := by
    rw [Value.fieldName, List.getD_eq_getElem?_getD, hfield, Option.getD_some]
  rw [access, item_of_getElem? hfield]
  change (if args.length = 1 then _ else _) = _
  by_cases h : args.length = 1
  · rw [if_pos h]
    obtain ⟨v, rfl⟩ := List.length_eq_one_iff.mp h
    rw [item_of_getElem? (x := v) rfl]
    cases v with
    | record u fields =>
      change (if t = u then _ else _) = ofResult (if t = u then _ else _)
      by_cases htype : t = u
      · subst htype
        have hlt : i < fields.length := by rwa [hargs fields rfl]
        rw [if_pos rfl, if_pos rfl, item_of_getElem? (List.getElem?_eq_getElem hlt),
          List.getElem?_eq_getElem hlt]
        rfl
      · rw [if_neg htype, if_neg htype]
        rfl
    | _ => rfl
  · rw [if_neg h, ← hname]
    obtain _ | ⟨v, _ | ⟨w, rest⟩⟩ := args
    · rfl
    · exact absurd rfl h
    · cases v <;> rfl

end Guarded

/-! ### Machines -/

abbrev GuardedRun := EStateM (Halt EvalError) Machine

namespace GuardedRun

/-- A computation that makes no guarded accesses. -/
def ofRun {α : Type} (x : Machine.Run α) : GuardedRun α := fun m =>
  match x m with
  | .ok a m => .ok a m
  | .error e m => .error (.error e) m

def give : Guarded EvalError Value → GuardedRun Value
  | .ok v => pure v
  | .error h => throw h

def leave : GuardedRun Unit := fun m =>
  if 0 < m.depth then .ok () { m with depth := m.depth - 1 } else .error (.breach .depth) m

def thenLeave (x : GuardedRun Value) : GuardedRun Value := fun m =>
  match x m with
  | .ok v m => (do leave; return v : GuardedRun Value) m
  | .error h m => (do leave; throw h : GuardedRun Value) m

mutual

def eval (call : Value → List Value → GuardedRun Value) (i : Nat) : Expr → GuardedRun Value
  | .literal d | .quoted d => pure (.ofDatum d)
  | .identifier s => ofRun (Machine.lookup i s)
  | .lambda site name params body =>
    pure (.closure ⟨site, name, params, body⟩ (.environment i))
  | .call callee arguments => do
    let procedure ← eval call i callee
    let args ← evalAll call i arguments
    call procedure args
  | .branch form question answer otherwise => do
    match ← eval call i question with
    | .boolean true => eval call i answer
    | .boolean false => evalElse call i otherwise
    | v => throw (.error (.notBoolean form v))
  | .define _ _ | .defineStruct _ _ => throw (.error .nestedDefinition)

def evalAll (call : Value → List Value → GuardedRun Value) (i : Nat) :
    List Expr → GuardedRun (List Value)
  | [] => pure []
  | e :: rest => do
    let v ← eval call i e
    return v :: (← evalAll call i rest)

def evalElse (call : Value → List Value → GuardedRun Value) (i : Nat) :
    Option Expr → GuardedRun Value
  | some e => eval call i e
  | none => throw (.error .allFalse)

end

def call (levels : Nat) (procedure : Value) (args : List Value) : GuardedRun Value :=
  match procedure with
  | .closure code (.environment i) =>
    if args.length = code.params.length then do
      let i ← ofRun (Machine.child i)
      ofRun (Machine.insertAll i (code.params.zip args))
      ofRun Machine.enter
      thenLeave <|
        match levels with
        | 0 => throw (.error .tooDeep)
        | levels + 1 => eval (fun v args => call levels v args) i code.body
    else throw (.error (.arity code.displayName (.exactly code.params.length) args.length))
  | v => give (Guarded.call v args)

def evaluate (i : Nat) (e : Expr) : GuardedRun Value := fun m =>
  eval (call (m.maxDepth - m.depth)) i e m

def execute : Expr → GuardedRun (Option Value)
  | .define s e => do
    ofRun (Machine.insert 0 s (← evaluate 0 e))
    return none
  | .defineStruct s fields => do
    ofRun (Machine.insertAll 0 (← ofRun (Machine.newType s fields)).bindings)
    return none
  | e => do return some (← evaluate 0 e)

def runTest (t : TestCase) : GuardedRun Unit := do
  let actual ← evaluate 0 t.actual
  let expected ← evaluate 0 t.expected
  if actual.equal expected then return () else throw (.error (.testFailed actual expected))

def perform : Command → GuardedRun Outcome
  | .form e => do
    match ← execute e with
    | some v => return .value v
    | none => return .defined
  | .test t => do
    runTest t
    return .passed

def step (m : Machine) (c : Command) : Machine × Guarded EvalError Outcome :=
  match perform c m with
  | .ok outcome m => (m, .ok outcome)
  | .error h m => (m, .error h)

def runCommands (m : Machine) : List Command → Machine × List (Guarded EvalError Outcome)
  | [] => (m, [])
  | c :: rest =>
    let (m, outcome) := step m c
    let (m, outcomes) := runCommands m rest
    (m, outcome :: outcomes)

end GuardedRun

end BeginningStudent
