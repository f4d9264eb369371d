import BeginningStudent.Error
import BeginningStudent.Interpreter
import BeginningStudent.Resolve.Program

/-!
# Sessions

Sources that are run one after the other, each of which sees the definitions of those before it.
A source is scanned, read and resolved as a whole before anything in it runs; its tests run last.
The first error ends it. The names that have been registered by then stay registered and the
definitions that have been made stay made.
-/

namespace BeginningStudent

structure Session where
  names : SymbolTable
  interpreter : Interpreter

structure Result where
  values : List Value
  passed : Nat
  error : Option Error

def Result.ofError (e : Error) : Result := ⟨[], 0, some e⟩

def readSource (source : String) : Except Error (List Form) := do
  let tokens ← (Token.ofSource source).mapError .scan
  (Form.read tokens).mapError .read

namespace Interpreter

def runProgram (m : Interpreter) (p : Program) : Interpreter × Result :=
  match m.runForms p.forms with
  | (m, values, some e) => (m, ⟨values, 0, some (.eval e)⟩)
  | (m, values, none) =>
    let (passed, e) := m.runTests p.tests
    (m, ⟨values, passed, e.map .eval⟩)

end Interpreter

namespace Session

def start (maxDepth : Nat) : Session := ⟨.empty, .start maxDepth⟩

def step (s : Session) (source : String) : Session × Result :=
  match readSource source with
  | .error e => (s, .ofError e)
  | .ok forms =>
    match s.names.resolveProgram forms with
    | (names, .error e) => ({ s with names }, .ofError (.resolve e))
    | (names, .ok program) =>
      let (interpreter, result) := s.interpreter.runProgram program
      (⟨names, interpreter⟩, result)

def run (s : Session) : List String → Session × List Result
  | [] => (s, [])
  | source :: rest =>
    let (s, result) := s.step source
    let (s, results) := s.run rest
    (s, result :: results)

/-- A name that was registered before the error stays taken. -/
example : (((start 10).run ["(define x (/ 1 0))", "(define x 1)", "x"]).2.map
      fun r => r.error.map Error.message) =
    [some "/: division by zero",
      some "x: this name was defined previously and cannot be re-defined",
      some "internal error: x is unbound after resolution"] := by decide +kernel

end Session
end BeginningStudent
