import BeginningStudent.Eval.Error
import BeginningStudent.Form.Read
import BeginningStudent.Resolve.Error
import BeginningStudent.Token.Scan

/-!
# Errors

The errors of all stages, from scanning to evaluation.
-/

namespace BeginningStudent

inductive Error where
  | scan (e : ScanError)
  | read (e : ReadError)
  | resolve (e : ResolveError)
  | eval (e : EvalError)

inductive ErrorKind where
  | scan
  | read
  | resolve
  | divideByZero
  /-- A wrong argument of a primitive, or a wrong number of arguments. -/
  | builtin
  /-- A wrong use of the constructor or an accessor of a structure type. -/
  | struct
  | condition
  | testFailure
  | stackOverflow
  | internal
deriving DecidableEq, Repr

def EvalError.kind : EvalError → ErrorKind
  | .primitive _ .divideByZero => .divideByZero
  | .primitive _ _ | .arity _ _ _ => .builtin
  | .constructorArity _ _ | .notInstance _ _ _ => .struct
  | .notBoolean _ _ | .allFalse => .condition
  | .testFailed _ _ => .testFailure
  | .tooDeep => .stackOverflow
  | .unbound _ | .notProcedure _ | .nestedDefinition | .missingField _ _ => .internal

namespace Error

def kind : Error → ErrorKind
  | .scan _ => .scan
  | .read _ => .read
  | .resolve e => if e.isInternal then .internal else .resolve
  | .eval e => e.kind

def message : Error → String
  | .scan e => e.message
  | .read e => e.message
  | .resolve e => e.message
  | .eval e => e.message

/-- Is the error more than a mistake in the program: a limit that it has reached, or a fault of
the interpreter? -/
def isFatal (e : Error) : Bool := e.kind == .stackOverflow || e.kind == .internal

end Error
end BeginningStudent
