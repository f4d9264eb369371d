import BeginningStudent.Primitive.Fault

/-!
# Errors of evaluation

Why an expression has no value, or why a test fails. The internal errors are those that programs
which have been resolved should not meet.
-/

namespace BeginningStudent

inductive EvalError where
  /-- A primitive rejects its arguments. -/
  | primitive (p : Primitive) (fault : Fault)
  /-- A closure, predicate or accessor is called with a wrong number of arguments. -/
  | arity (name : String) (arity : Arity) (found : Nat)
  /-- A constructor is called with a wrong number of arguments. -/
  | constructorArity (t : StructType) (found : Nat)
  /-- An accessor is called with something that is not of its structure type. -/
  | notInstance (t : StructType) (index : Nat) (given : Value)
  | notBoolean (form : Conditional) (question : Value)
  /-- No question of a `cond` without `else` is true. -/
  | allFalse
  | testFailed (actual expected : Value)
  /-- Too many calls of closures are nested. -/
  | tooDeep
  | unbound (name : String)
  | notProcedure (v : Value)
  | nestedDefinition
  /-- An instance lacks the field of an accessor. -/
  | missingField (t : StructType) (index : Nat)

namespace EvalError

def message : EvalError → String
  | .primitive p fault => fault.message p.name
  | .arity name a found => a.message name found
  | .constructorArity t found => (Arity.exactly t.fields.length).message t.constructorName found
  | .notInstance t i given =>
    t.accessorName (Value.fieldName t i) ++ ": expects a " ++ t.name ++ ", given " ++ given.text
  | .notBoolean form question =>
    form.name ++ ": question result is not true or false: " ++ question.text
  | .allFalse => "cond: all question results were false"
  | .testFailed actual expected =>
    "Actual value " ++ actual.text ++ " differs from " ++ expected.text ++ ", the expected value."
  | .tooDeep => "out of memory: the program recursed too deeply"
  | .unbound name => "internal error: " ++ name ++ " is unbound after resolution"
  | .notProcedure v => "internal error: tried to call the non-procedure " ++ v.text
  | .nestedDefinition => "internal error: definition reached outside the top level"
  | .missingField t i =>
    "internal error: an instance of " ++ t.name ++ " has no field " ++ toString i

end EvalError
end BeginningStudent
