import BeginningStudent.Value

/-!
# Equality of values

`Value.equal` compares data by content: numbers by value, strings by their characters, pairs and
instances part by part. All other values are compared by `Value.sameAtom`, which also tells exact
from inexact numbers.
-/

namespace BeginningStudent.Value

/-- Are two values without parts the same? Closures are the same when they come from the same
lambda expression, whatever they hold. -/
def sameAtom : Value → Value → Bool
  | .boolean a, .boolean b => a == b
  | .number a, .number b => a.same b
  | .symbol a, .symbol b => a == b
  | .empty, .empty => true
  | .closure a _, .closure b _ => a.site == b.site
  | .primitive a, .primitive b => a == b
  | .constructor a, .constructor b => a == b
  | .predicate a, .predicate b => a == b
  | .accessor a i, .accessor b j => a == b && i == j
  | .structType a, .structType b => a == b
  | _, _ => false

/-- Are two values identical? Strings, pairs and instances have an identity beyond their content,
which values do not record, so for two of them there is no answer. -/
def identical? : Value → Value → Option Bool
  | .string _, .string _ | .pair _ _, .pair _ _ | .record _ _, .record _ _ => none
  | a, b => some (a.sameAtom b)

mutual

def equal : Value → Value → Bool
  | .number a, .number b => a.numEq b
  | .string a, .string b => a == b
  | .pair a as, .pair b bs => a.equal b && as.equal bs
  | .record s as, .record t bs => s == t && equalAll as bs
  | .number _, _ | .string _, _ | .pair _ _, _ | .record _ _, _ => false
  | a, b => a.sameAtom b

def equalAll : List Value → List Value → Bool
  | a :: as, b :: bs => a.equal b && equalAll as bs
  | _, _ => true

end

end BeginningStudent.Value
