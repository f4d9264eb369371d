import BeginningStudent.Interpreter

/-!
# Machines

Evaluation with the effects that `Expr.eval` does without. The environments of a machine are a tree
that all parts of a run share: each call of a closure adds an environment for its parameters, and
definitions change the environment of the top level in place. How deep calls are nested is counted
by going up at the start of a call and down at its end.

A closure of a machine holds the number of its environment in place of bindings.
-/

namespace BeginningStudent

structure Machine where
  tree : EnvironmentTree
  /-- How many calls of closures are nested. -/
  depth : Nat
  /-- How many calls of closures may be nested. -/
  maxDepth : Nat
  /-- The serial number of the next structure type. -/
  nextSerial : Nat

namespace Machine

/-- A computation of a machine. What it does to the machine stays done when it fails. -/
abbrev Run := EStateM EvalError Machine

/-- The state of the start. Environment 0 is that of the top level. -/
def start (maxDepth : Nat) : Machine := ⟨.initial, 0, maxDepth, 0⟩

/-! ### Effects -/

def lookup (i : Nat) (s : String) : Run Value := fun m =>
  match m.tree.lookup i s with
  | some v => .ok v m
  | none => .error (.unbound s) m

def child (i : Nat) : Run Nat := fun m =>
  let (j, tree) := m.tree.child i
  .ok j { m with tree }

def insert (i : Nat) (s : String) (v : Value) : Run Unit := fun m =>
  .ok () { m with tree := m.tree.insert i s v }

def insertAll (i : Nat) : Bindings → Run Unit
  | [] => pure ()
  | (s, v) :: rest => do
    insert i s v
    insertAll i rest

/-- Goes into a call, unless too many calls are nested. -/
def enter : Run Unit := fun m =>
  if m.maxDepth ≤ m.depth then .error .tooDeep m else .ok () { m with depth := m.depth + 1 }

/-- Leaves a call after the computation of its result, also if that has failed. -/
def thenLeave (x : Run Value) : Run Value := fun m =>
  match x m with
  | .ok v m => .ok v { m with depth := m.depth - 1 }
  | .error e m => .error e { m with depth := m.depth - 1 }

def give : Except EvalError Value → Run Value
  | .ok v => pure v
  | .error e => throw e

def newType (s : String) (fields : List String) : Run StructType := fun m =>
  .ok ⟨m.nextSerial, s, fields⟩ { m with nextSerial := m.nextSerial + 1 }

/-! ### Expressions and calls -/

mutual

def eval (call : Value → List Value → Run Value) (i : Nat) : Expr → Run Value
  | .literal d | .quoted d => pure (.ofDatum d)
  | .identifier s => lookup i s
  | .lambda site name params body => pure (.closure ⟨site, name, params, body⟩ (.environment i))
  | .call callee arguments => do
    let procedure ← eval call i callee
    let args ← evalAll call i arguments
    call procedure args
  | .branch form question answer otherwise => do
    match ← eval call i question with
    | .boolean true => eval call i answer
    | .boolean false => evalElse call i otherwise
    | v => throw (.notBoolean form v)
  | .define _ _ | .defineStruct _ _ => throw .nestedDefinition

def evalAll (call : Value → List Value → Run Value) (i : Nat) : List Expr → Run (List Value)
  | [] => pure []
  | e :: rest => do
    let v ← eval call i e
    return v :: (← evalAll call i rest)

def evalElse (call : Value → List Value → Run Value) (i : Nat) : Option Expr → Run Value
  | some e => eval call i e
  | none => throw .allFalse

end

/-- Calls a value with arguments. The recursion is bounded by `levels`. When these are as many as the
counter still lets through, the counter always stops first. -/
def call (levels : Nat) (procedure : Value) (args : List Value) : Run Value :=
  match procedure with
  | .closure code (.environment i) =>
    if args.length = code.params.length then do
      let i ← child i
      insertAll i (code.params.zip args)
      enter
      thenLeave <|
        match levels with
        | 0 => throw .tooDeep
        | levels + 1 => eval (fun v args => call levels v args) i code.body
    else throw (.arity code.displayName (.exactly code.params.length) args.length)
  | v => give (v.call [] 0 args)

def evaluate (i : Nat) (e : Expr) : Run Value := fun m =>
  eval (call (m.maxDepth - m.depth)) i e m

/-! ### Commands -/

def execute : Expr → Run (Option Value)
  | .define s e => do
    insert 0 s (← evaluate 0 e)
    return none
  | .defineStruct s fields => do
    insertAll 0 (← newType s fields).bindings
    return none
  | e => do return some (← evaluate 0 e)

def runTest (t : TestCase) : Run Unit := do
  let actual ← evaluate 0 t.actual
  let expected ← evaluate 0 t.expected
  if actual.equal expected then return () else throw (.testFailed actual expected)

def perform : Command → Run Outcome
  | .form e => do
    match ← execute e with
    | some v => return .value v
    | none => return .defined
  | .test t => do
    runTest t
    return .passed

def step (m : Machine) (c : Command) : Machine × Except EvalError Outcome :=
  match perform c m with
  | .ok outcome m => (m, .ok outcome)
  | .error e m => (m, .error e)

def runCommands (m : Machine) : List Command → Machine × List (Except EvalError Outcome)
  | [] => (m, [])
  | c :: rest =>
    let (m, outcome) := m.step c
    let (m, outcomes) := m.runCommands rest
    (m, outcome :: outcomes)

end Machine
end BeginningStudent
