import BeginningStudent.Numeric.Binary64.Arithmetic
import BeginningStudent.Numeric.Decimal

/-!
# Real numbers

A real number is an exact rational, an inexact rational or a float. The kinds are ranked in this
order, and an operation on two reals answers in the higher kind of its operands: a float operand
makes the result a float, an inexact rational makes it inexact.
-/

namespace BeginningStudent

inductive ArithmeticFault where
  | divideByZero
  | noExactRepresentation
deriving DecidableEq, Repr

inductive RealNumber where
  | exact (q : Rat)
  | inexact (q : Rat)
  | float (x : Binary64)
deriving DecidableEq

namespace RealNumber

def ofInt (n : Int) : RealNumber := .exact n

/-! ### Kinds and conversions -/

def isExact : RealNumber → Bool
  | .exact _ => true
  | _ => false

def toFloat : RealNumber → Binary64
  | .exact q | .inexact q => Binary64.ofRat q
  | .float x => x

/-- The rational that the number denotes; the infinities and NaN denote none. -/
def toRat? : RealNumber → Option Rat
  | .exact q | .inexact q => some q
  | .float x => Binary64.toRat? x

def toRat (r : RealNumber) : Except ArithmeticFault Rat :=
  match r.toRat? with
  | some q => .ok q
  | none => .error .noExactRepresentation

/-- The exact number of the same value. -/
def toExact (r : RealNumber) : Except ArithmeticFault RealNumber := .exact <$> r.toRat

/-- Marks an exact number as inexact and keeps its value. -/
def markInexact : RealNumber → RealNumber
  | .exact q => .inexact q
  | r => r

def floated (r : RealNumber) : RealNumber := .float r.toFloat

def toInt? : RealNumber → Option Int
  | .exact q | .inexact q => if q.den = 1 then some q.num else none
  | .float x => Binary64.toInt? x

/-- The integer `n` as a number of the kind of `r`. A float is rounded from the abridged integer. -/
def like (r : RealNumber) (n : Int) : RealNumber :=
  match r with
  | .exact _ => .exact n
  | .inexact _ => .inexact n
  | .float _ => .float (Binary64.ofIntAbridged n)

/-! ### Predicates -/

def isZero : RealNumber → Bool
  | .exact q | .inexact q => q == 0
  | .float x => x.isZero

def isExactZero : RealNumber → Bool
  | .exact q => q == 0
  | _ => false

def isNegative : RealNumber → Bool
  | .exact q | .inexact q => q < 0
  | .float x => x.isNegative

def isInteger (r : RealNumber) : Bool := r.toInt?.isSome

/-! ### Arithmetic -/

/-- An operation given on rationals and on floats, in the higher kind of the two operands. -/
def combine (onRat : Rat → Rat → Rat) (onFloat : Binary64 → Binary64 → Binary64) :
    RealNumber → RealNumber → RealNumber
  | .exact a, .exact b => .exact (onRat a b)
  | .exact a, .inexact b | .inexact a, .exact b | .inexact a, .inexact b => .inexact (onRat a b)
  | a, b => .float (onFloat a.toFloat b.toFloat)

def add : RealNumber → RealNumber → RealNumber := combine (· + ·) (· + ·)

def mul : RealNumber → RealNumber → RealNumber := combine (· * ·) (· * ·)

def negate : RealNumber → RealNumber
  | .exact q => .exact (-q)
  | .inexact q => .inexact (-q)
  | .float x => .float (-x)

/-- The inverse. An inexact zero has the inverse `+inf.0`, as the float `0.0` has; only the exact
zero has none. -/
def invert : RealNumber → Except ArithmeticFault RealNumber
  | .exact q => if q = 0 then .error .divideByZero else .ok (.exact q⁻¹)
  | .inexact q => .ok (if q = 0 then .float (.infinity false) else .inexact q⁻¹)
  | .float x => .ok (.float (.one / x))

def abs (r : RealNumber) : RealNumber := if r.isNegative then r.negate else r

/-! ### Integer division -/

/-- The higher kind of two numbers, as some number of that kind. -/
def higherKind : RealNumber → RealNumber → RealNumber
  | .float x, _ | _, .float x => .float x
  | .exact a, .exact _ => .exact a
  | a, .inexact _ => a.markInexact
  | a, _ => a

def divideIntegers (divide : Int → Int → Int) (a b : RealNumber) :
    Except ArithmeticFault RealNumber :=
  match a.toInt?, b.toInt? with
  | some m, some n =>
    if n = 0 then .error .divideByZero else .ok ((higherKind a b).like (divide m n))
  | _, _ => .error .noExactRepresentation

def quotient : RealNumber → RealNumber → Except ArithmeticFault RealNumber :=
  divideIntegers Int.tdiv

/-- The remainder of `quotient`, which takes the sign of the dividend. -/
def remainder : RealNumber → RealNumber → Except ArithmeticFault RealNumber :=
  divideIntegers Int.tmod

/-- The remainder that takes the sign of the divisor. -/
def modulo : RealNumber → RealNumber → Except ArithmeticFault RealNumber :=
  divideIntegers Int.fmod

def numerator (r : RealNumber) : Except ArithmeticFault RealNumber :=
  (fun q => r.like q.num) <$> r.toRat

def denominator (r : RealNumber) : Except ArithmeticFault RealNumber :=
  (fun q => r.like q.den) <$> r.toRat

/-! ### Rounding -/

/-- The integer nearest to a rational, a half going to the even one. -/
def roundEven (q : Rat) : Int :=
  let n := q.floor
  let part := q - n
  if part < 1 / 2 then n
  else if 1 / 2 < part then n + 1
  else if n % 2 = 0 then n
  else n + 1

def mapInt (f : Rat → Int) : RealNumber → RealNumber
  | .exact q => .exact (f q)
  | .inexact q => .inexact (f q)
  | .float x => .float (Binary64.mapInt f x)

def floor : RealNumber → RealNumber := mapInt Rat.floor

def ceiling : RealNumber → RealNumber := mapInt Rat.ceil

/-- The nearest integer, a half going to the even one. A negative float that rounds to zero gives
`-0.0`, except that the half `-0.5` gives `0.0`. -/
def round (r : RealNumber) : RealNumber :=
  match r with
  | .float x => if x.toRat? = some (-1 / 2) then .float (.zero false) else r.mapInt roundEven
  | _ => r.mapInt roundEven

/-! ### Order -/

def compareRat (a b : Rat) : Ordering := if a < b then .lt else if a = b then .eq else .gt

/-- The order of two reals: of their values when both are rationals, of their nearest floats when
one of them is a float. None when NaN is involved. -/
def compare : RealNumber → RealNumber → Option Ordering
  | .exact a, .exact b | .exact a, .inexact b | .inexact a, .exact b | .inexact a, .inexact b =>
    some (compareRat a b)
  | a, b => Binary64.compare a.toFloat b.toFloat

def numEq (a b : RealNumber) : Bool := a.compare b == some .eq

/-- Equality by value and by exactness. The two inexact kinds count as one. -/
def same (a b : RealNumber) : Bool := a.isExact == b.isExact && a.numEq b

/-! ### Roots -/

def ratSqrt? (q : Rat) : Option Rat :=
  let n := q.num.natAbs.sqrt
  let d := q.den.sqrt
  if n * n = q.num.natAbs ∧ d * d = q.den then some (mkRat n d) else none

def sqrt (r : RealNumber) : RealNumber :=
  match r with
  | .exact q => match ratSqrt? q with
    | some root => .exact root
    | none => .float (Binary64.sqrt r.toFloat)
  | _ => .float (Binary64.sqrt r.toFloat)

/-! ### Text -/

/-- Floats that are integers below this magnitude, `10^21`, are written in full, with one decimal
place. -/
def longestWhole : Nat := Nat.pow 10 21

def inexactText (x : Binary64) : List Char :=
  match x.toRat? with
  | none => (if x.isNaN then "+nan.0" else if x.signBit then "-inf.0" else "+inf.0").toList
  | some q =>
    if q.den = 1 ∧ q.num.natAbs < longestWhole then
      (if x.signBit then ['-'] else []) ++ Decimal.natText q.num.natAbs ++ ['.', '0']
    else Decimal.floatText x

/-- The text of an exact number: an integer in full, any other rational as its nearest float, and
as `n/d` where that float is zero or infinite. -/
def exactText (q : Rat) : List Char :=
  if q.den = 1 then Decimal.intText q.num
  else
    let x := Binary64.ofRat q
    if x.isFinite && !x.isZero then Decimal.floatText x
    else Decimal.intText q.num ++ '/' :: Decimal.natText q.den

def plainText : RealNumber → List Char
  | .exact q => exactText q
  | r => inexactText r.toFloat

def text (r : RealNumber) : List Char := (if r.isExact then [] else ['#', 'i']) ++ r.plainText

example : text (.exact (1 / 2)) = "0.5".toList := by decide +kernel
example : text (.float .two) = "#i2.0".toList := by decide +kernel
example : text (.float (.infinity true)) = "#i-inf.0".toList := by decide +kernel
example : text (.exact (1 / 10 ^ 400 * 3)) = "3/1".toList ++ List.replicate 400 '0' := by
  decide +kernel

end RealNumber
end BeginningStudent
