import BeginningStudent.Primitive.Argument

/-!
# Primitives on numbers
-/

namespace BeginningStudent.Operation

def ofReal (r : RealNumber) : Value := .number (.real r)

def orBlame {α : Type} (given : Value) : Except ArithmeticFault α → Except Fault α
  | .ok a => .ok a
  | .error e => .error (.ofArithmetic given e)

/-! ### Arithmetic -/

def accumulate (combine : Number → Number → Number) (first : Value) (others : List Value) :
    Except Fault Value := do
  let first ← Argument.number first
  let total ← others.foldlM (fun total v => combine total <$> Argument.number v) first
  return .number total

def sum (first second : Value) (others : List Value) : Except Fault Value :=
  accumulate Number.add first (second :: others)

def product (first second : Value) (others : List Value) : Except Fault Value :=
  accumulate Number.mul first (second :: others)

def difference (first : Value) (others : List Value) : Except Fault Value :=
  match others with
  | [] => (fun z => .number z.negate) <$> Argument.number first
  | _ => accumulate Number.sub first others

def ratio (first second : Value) (others : List Value) : Except Fault Value := do
  let first ← Argument.number first
  let total ← (second :: others).foldlM
    (fun total v => do orBlame v (total.div (← Argument.number v))) first
  return .number total

def onNumber (f : Number → Number) (v : Value) : Except Fault Value :=
  (fun z => .number (f z)) <$> Argument.number v

def onReal (f : RealNumber → RealNumber) (v : Value) : Except Fault Value :=
  (fun r => ofReal (f r)) <$> Argument.real v

def power (base exponent : Value) : Except Fault Value := do
  let z ← Argument.number base
  let w ← Argument.number exponent
  .number <$> orBlame base (z.expt w)

/-- The argument that all others are not `better` than, the first of several. It is made a float
if any argument is inexact. -/
def extremum (better : Ordering) (first : Value) (others : List Value) : Except Fault Value := do
  let first ← Argument.real first
  let (best, exact) ← others.foldlM
    (fun (best, exact) v => do
      let next ← Argument.real v
      return (if next.compare best = some better then next else best, exact && next.isExact))
    (first, first.isExact)
  return ofReal (if exact then best else best.floated)

def integerDivision (divide : RealNumber → RealNumber → Except ArithmeticFault RealNumber)
    (dividend divisor : Value) : Except Fault Value := do
  let (a, _) ← Argument.integer dividend
  let (b, _) ← Argument.integer divisor
  ofReal <$> orBlame divisor (divide a b)

def fractionPart (part : RealNumber → Except ArithmeticFault RealNumber) (v : Value) :
    Except Fault Value := do
  let r ← Argument.rational v
  ofReal <$> orBlame v (part r)

def toExact (v : Value) : Except Fault Value := do
  let z ← Argument.number v
  .number <$> orBlame v z.toExact

/-! ### Comparisons -/

def numEq (first second : Value) (others : List Value) : Except Fault Value :=
  Argument.chain Argument.number Number.numEq first (second :: others)

/-- A comparison of neighbouring reals. Nothing holds of NaN. -/
def ordered (accepts : Ordering → Bool) (first second : Value) (others : List Value) :
    Except Fault Value :=
  Argument.chain Argument.real (fun a b => (a.compare b).any accepts) first (second :: others)

/-! ### Predicates -/

def testNumber (p : Number → Bool) (v : Value) : Except Fault Value :=
  (fun z => .boolean (p z)) <$> Argument.number v

def testReal (p : RealNumber → Bool) (v : Value) : Except Fault Value :=
  (fun r => .boolean (p r)) <$> Argument.real v

def testInteger (p : Int → Bool) (v : Value) : Except Fault Value :=
  (fun (_, n) => .boolean (p n)) <$> Argument.integer v

/-- Not negative and not zero. This holds of NaN. -/
def isPositive (r : RealNumber) : Bool := !r.isNegative && !r.isZero

/-- A predicate on all values: does an argument check accept the value? -/
def passes {α : Type} (check : Value → Except Fault α) (v : Value) : Except Fault Value :=
  .ok (.boolean (check v).isOk)

/-! ### Text -/

def numberToString (v : Value) : Except Fault Value :=
  (fun z => .string (String.ofList z.unmarkedText)) <$> Argument.number v

end BeginningStudent.Operation
