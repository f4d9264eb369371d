import BeginningStudent.Eval
import BeginningStudent.Value.Equality

/-!
# Interpreters

What lives from one form of the top level to the next: the definitions, and the serial number of
the next structure type. Only a definition changes the state, and only when it succeeds.
-/

namespace BeginningStudent

structure Interpreter where
  /-- The definitions, the newest first. -/
  globals : Bindings
  /-- The serial number of the next structure type. -/
  nextSerial : Nat
  /-- How many calls of closures may be nested. -/
  maxDepth : Nat

inductive Command where
  | form (e : Expr)
  | test (t : TestCase)

inductive Outcome where
  | value (v : Value)
  | defined
  | passed

def StructType.bindings (t : StructType) : Bindings :=
  (t.name, .structType t) :: (t.constructorName, .constructor t) ::
    (t.predicateName, .predicate t) ::
    t.fields.mapIdx fun i field => (t.accessorName field, .accessor t i)

namespace Interpreter

def defaultMaxDepth : Nat := 200000

def start (maxDepth : Nat) : Interpreter := ⟨[], 0, maxDepth⟩

def eval (m : Interpreter) (e : Expr) : Except EvalError Value :=
  e.eval (Value.call m.globals m.maxDepth) ⟨m.globals, []⟩

def bind (m : Interpreter) (s : String) (v : Value) : Interpreter :=
  { m with globals := (s, v) :: m.globals }

def defineStruct (m : Interpreter) (s : String) (fields : List String) : Interpreter :=
  let t : StructType := ⟨m.nextSerial, s, fields⟩
  { m with globals := t.bindings.reverse ++ m.globals, nextSerial := m.nextSerial + 1 }

def execute (m : Interpreter) : Expr → Except EvalError (Interpreter × Option Value)
  | .define s e => do return (m.bind s (← m.eval e), none)
  | .defineStruct s fields => .ok (m.defineStruct s fields, none)
  | e => do return (m, some (← m.eval e))

def runTest (m : Interpreter) (t : TestCase) : Except EvalError Unit := do
  let actual ← m.eval t.actual
  let expected ← m.eval t.expected
  if actual.equal expected then return () else .error (.testFailed actual expected)

/-- Runs a command. The state stays when it fails. -/
def step (m : Interpreter) : Command → Interpreter × Except EvalError Outcome
  | .form e =>
    match m.execute e with
    | .error err => (m, .error err)
    | .ok (m, some v) => (m, .ok (.value v))
    | .ok (m, none) => (m, .ok .defined)
  | .test t => (m, (fun _ => .passed) <$> m.runTest t)

def runCommands (m : Interpreter) : List Command → Interpreter × List (Except EvalError Outcome)
  | [] => (m, [])
  | c :: rest =>
    let (m, outcome) := m.step c
    let (m, outcomes) := m.runCommands rest
    (m, outcome :: outcomes)

/-- Runs forms up to the first that fails: the state it leaves, the values, and the error. -/
def runForms (m : Interpreter) : List Expr → Interpreter × List Value × Option EvalError
  | [] => (m, [], none)
  | e :: rest =>
    match m.execute e with
    | .error err => (m, [], some err)
    | .ok (m, v) =>
      let (m, values, err) := m.runForms rest
      (m, v.toList ++ values, err)

def runTests (m : Interpreter) : List TestCase → Nat × Option EvalError
  | [] => (0, none)
  | t :: rest =>
    match m.runTest t with
    | .error err => (0, some err)
    | .ok () =>
      let (passed, err) := m.runTests rest
      (passed + 1, err)

end Interpreter
end BeginningStudent
