import BeginningStudent.Arity
import BeginningStudent.Value.Text

/-!
# Faults of primitives

Why a primitive rejects its arguments.
-/

namespace BeginningStudent

inductive Expectation where
  | number
  | real
  | rational
  | integer
  | natural
  | boolean
  | string
  | symbol
  | list
  | nonEmptyList
deriving DecidableEq, Repr

def Expectation.noun : Expectation → String
  | .number => "a number"
  | .real => "a real number"
  | .rational => "a rational number"
  | .integer => "an integer"
  | .natural => "a natural number"
  | .boolean => "a boolean"
  | .string => "a string"
  | .symbol => "a symbol"
  | .list => "a list"
  | .nonEmptyList => "a non-empty list"

inductive Fault where
  | arity (arity : Arity) (found : Nat)
  | expected (what : Expectation) (given : Value)
  | divideByZero
  | noExactRepresentation (given : Value)
  | startOutOfRange (index : Nat)
  | endOutOfRange (index : Nat)
  /-- The second argument of `cons` is not a list. -/
  | notList (first second : Value)

namespace Fault

def message (name : String) : Fault → String
  | .arity a found => a.message name found
  | .expected what given => name ++ ": expects " ++ what.noun ++ ", given " ++ given.text
  | .divideByZero => name ++ ": division by zero"
  | .noExactRepresentation given => name ++ ": no exact representation for " ++ given.text
  | .startOutOfRange index => name ++ ": starting index is out of range: " ++ toString index
  | .endOutOfRange index => name ++ ": ending index is out of range: " ++ toString index
  | .notList first second =>
    name ++ ": second argument must be a list, but received " ++ first.text ++ " and " ++
      second.text

/-- The fault of a failed operation on numbers, blamed on the given argument. -/
def ofArithmetic (given : Value) : ArithmeticFault → Fault
  | .divideByZero => .divideByZero
  | .noExactRepresentation => .noExactRepresentation given

end Fault
end BeginningStudent
