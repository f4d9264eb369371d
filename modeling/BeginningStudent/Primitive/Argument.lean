import BeginningStudent.Primitive.Fault

/-!
# Arguments of primitives

The checks that a primitive makes on its arguments. Each gives the content of a value of the
expected kind and faults on any other value.
-/

namespace BeginningStudent.Argument

def number : Value → Except Fault Number
  | .number z => .ok z
  | v => .error (.expected .number v)

def real (v : Value) : Except Fault RealNumber :=
  match v with
  | .number (.real r) => .ok r
  | _ => .error (.expected .real v)

def rational (v : Value) : Except Fault RealNumber :=
  match v with
  | .number (.real r) => if r.toRat?.isSome then .ok r else .error (.expected .rational v)
  | _ => .error (.expected .rational v)

/-- A real that denotes an integer, with that integer. -/
def integer (v : Value) : Except Fault (RealNumber × Int) :=
  match v with
  | .number (.real r) =>
    match r.toInt? with
    | some n => .ok (r, n)
    | none => .error (.expected .integer v)
  | _ => .error (.expected .integer v)

/-- The number of indices: they fit in a word of 64 bits. -/
def indexLimit : Nat := 0x10000000000000000

/-- An exact natural number that is an index. -/
def natural (v : Value) : Except Fault Nat :=
  match v with
  | .number (.real (.exact q)) =>
    if q.den = 1 ∧ 0 ≤ q.num ∧ q.num < indexLimit then .ok q.num.toNat
    else .error (.expected .natural v)
  | _ => .error (.expected .natural v)

def boolean : Value → Except Fault Bool
  | .boolean b => .ok b
  | v => .error (.expected .boolean v)

def string : Value → Except Fault String
  | .string s => .ok s
  | v => .error (.expected .string v)

def symbol : Value → Except Fault String
  | .symbol s => .ok s
  | v => .error (.expected .symbol v)

def nonEmptyList : Value → Except Fault (Value × Value)
  | .pair first rest => .ok (first, rest)
  | v => .error (.expected .nonEmptyList v)

/-- Do neighbours among the arguments compare as they should? Every argument is checked, also
behind the first pair of neighbours that does not. -/
def chain {α : Type} (check : Value → Except Fault α) (holds : α → α → Bool) (first : Value)
    (others : List Value) : Except Fault Value := do
  let first ← check first
  let (_, answer) ← others.foldlM
    (fun (previous, answer) v => do
      let next ← check v
      return (next, answer && holds previous next))
    (first, true)
  return .boolean answer

end BeginningStudent.Argument
