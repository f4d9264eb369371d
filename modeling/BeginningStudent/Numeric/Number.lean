import BeginningStudent.Numeric.RealNumber
import BeginningStudent.Numeric.ComplexFloat

/-!
# Numbers

A number is a real or has a real and an imaginary part. A number whose imaginary part is the exact
zero is always given as a real: `Number.ofParts` builds complex results and sees to that. Inexact
zeros are not collapsed, so `1.0+0.0i` stays complex.
-/

namespace BeginningStudent

inductive Number where
  | real (r : RealNumber)
  | complex (re im : RealNumber)
deriving DecidableEq

namespace Number

/-- The number with the given parts: a real when the imaginary part is the exact zero. -/
def ofParts (re im : RealNumber) : Number := if im.isExactZero then .real re else .complex re im

def ofInt (n : Int) : Number := .real (.ofInt n)

/-- No complex number has an exact zero as its imaginary part. -/
def Collapsed : Number → Prop
  | .real _ => True
  | .complex _ im => im.isExactZero = false

theorem collapsed_ofParts (re im : RealNumber) : (ofParts re im).Collapsed := by
  unfold ofParts
  split
  · trivial
  · simpa [Collapsed] using ‹¬im.isExactZero = true›

/-! ### Parts and predicates -/

def toReal? : Number → Option RealNumber
  | .real r => some r
  | .complex _ _ => none

def re : Number → RealNumber
  | .real r => r
  | .complex re _ => re

def im : Number → RealNumber
  | .real _ => .ofInt 0
  | .complex _ im => im

def isExact : Number → Bool
  | .real r => r.isExact
  | .complex re im => re.isExact && im.isExact

def isZero : Number → Bool
  | .real r => r.isZero
  | .complex re im => re.isZero && im.isZero

/-! ### Conversions -/

def toExact : Number → Except ArithmeticFault Number
  | .real r => .real <$> r.toExact
  | .complex re im => do return ofParts (← re.toExact) (← im.toExact)

def toInexact : Number → Number
  | .real r => .real r.floated
  | .complex re im => ofParts re.floated im.floated

def toComplexFloat : Number → ComplexFloat
  | .real r => ⟨r.toFloat, .zero false⟩
  | .complex re im => ⟨re.toFloat, im.toFloat⟩

def ofComplexFloat (z : ComplexFloat) : Number := ofParts (.float z.re) (.float z.im)

/-! ### Arithmetic -/

def ofResult (re im : RealNumber) (exact : Bool) : Number :=
  if exact then ofParts re im else ofParts re.markInexact im.markInexact

def add : Number → Number → Number
  | .real a, .real b => .real (a.add b)
  | z, w => ofResult (z.re.add w.re) (z.im.add w.im) (z.isExact && w.isExact)

def mul : Number → Number → Number
  | .real a, .real b => .real (a.mul b)
  | z, w =>
    ofResult ((z.re.mul w.re).add (z.im.mul w.im).negate) ((z.re.mul w.im).add (z.im.mul w.re))
      (z.isExact && w.isExact)

def negate : Number → Number
  | .real r => .real r.negate
  | .complex re im => ofParts re.negate im.negate

def squaredMagnitude (re im : RealNumber) : RealNumber := (re.mul re).add (im.mul im)

def invert : Number → Except ArithmeticFault Number
  | .real r => .real <$> r.invert
  | .complex re im => do
    let scale ← (squaredMagnitude re im).invert
    return ofParts (re.mul scale) (im.negate.mul scale)

def sub (z w : Number) : Number := z.add w.negate

def div (z w : Number) : Except ArithmeticFault Number := z.mul <$> w.invert

def numEq (z w : Number) : Bool := z.re.numEq w.re && z.im.numEq w.im

def same (z w : Number) : Bool := z.re.same w.re && z.im.same w.im

/-! ### Roots and powers -/

/-- The square root of a real. A negative real has an imaginary root, beside a zero of the same
exactness. -/
def sqrtReal (r : RealNumber) : Number :=
  if r.isNegative then
    let im := r.negate.sqrt
    ofParts (if im.isExact then .ofInt 0 else .float (.zero false)) im
  else .real r.sqrt

def sqrt : Number → Number
  | .real r => sqrtReal r
  | z => ofComplexFloat z.toComplexFloat.sqrt

def magnitude : Number → Number
  | .real r => .real r.abs
  | .complex re im => sqrtReal (squaredMagnitude re im)

def mulPow (acc square : Number) (n : Nat) : Number :=
  if n = 0 then acc
  else
    let acc := if n % 2 = 1 then acc.mul square else acc
    if n / 2 = 0 then acc else mulPow acc (square.mul square) (n / 2)
termination_by n

/-- The power with an integer exponent. A negative exponent takes powers of the inverse. -/
def intPow (z : Number) (n : Int) : Except ArithmeticFault Number := do
  let base ← if n < 0 then z.invert else pure z
  return mulPow (ofInt 1) base n.natAbs

/-- The power `z ^ w`: by multiplication for an exact integer exponent, as a real float for a real
exponent and a base that is not negative, as a complex float otherwise. -/
def expt (z w : Number) : Except ArithmeticFault Number :=
  match z, w with
  | z, .real (.exact q) =>
    if q.den = 1 then z.intPow q.num else .ok (inexactPow z w)
  | z, w => .ok (inexactPow z w)
where
  inexactPow (z w : Number) : Number :=
    match z, w with
    | .real base, .real power =>
      if base.isNegative then ofComplexFloat (z.toComplexFloat.pow w.toComplexFloat)
      else .real (.float (base.toFloat.pow power.toFloat))
    | _, _ => ofComplexFloat (z.toComplexFloat.pow w.toComplexFloat)

/-! ### Text -/

/-- The text of a number. The imaginary part is written with its sign, without a marker, and is
followed by `i`. -/
def text : Number → List Char
  | .real r => r.text
  | .complex re im =>
    let imaginary := im.plainText
    let sign := match imaginary.head? with
      | some '-' | some '+' => []
      | _ => ['+']
    re.text ++ sign ++ imaginary ++ ['i']

def unmarkedText (z : Number) : List Char := if z.re.isExact then z.text else z.text.drop 2

example : text (.complex (.float (.ofFloat 1.5)) (.float (.ofInt (-2)))) = "#i1.5-2.0i".toList := by
  decide +kernel
example : (ofParts (.ofInt 0) (.ofInt 1)).mul (ofParts (.ofInt 0) (.ofInt 1)) = .ofInt (-1) := by
  decide +kernel

end Number
end BeginningStudent
