import BeginningStudent.Numeric.Binary64

/-!
# Arithmetic of 64-bit floats

The operations on floats, each the one of `Float` on numbers. NaN needs care, because it has a
sign here and none there: an operation hands on the first NaN among its operands, sign and all,
and answers `invalid` where numbers have no answer.
-/

namespace BeginningStudent.Binary64

/-- The answer of an operation that has none, such as `∞ - ∞`: the NaN with the sign bit set. -/
def invalid : Binary64 := nan true

def toFloat (x : Binary64) : Float := Float.ofBits x.bits

def ofFloat (y : Float) : Binary64 := if y.isNaN then invalid else ⟨y.toBits⟩

def lift (f : Float → Float) (x : Binary64) : Binary64 :=
  if isNaN x then x else ofFloat (f x.toFloat)

def lift₂ (f : Float → Float → Float) (x y : Binary64) : Binary64 :=
  if isNaN x then x else if isNaN y then y else ofFloat (f x.toFloat y.toFloat)

instance : Add Binary64 := ⟨lift₂ (· + ·)⟩
instance : Sub Binary64 := ⟨lift₂ (· - ·)⟩
instance : Mul Binary64 := ⟨lift₂ (· * ·)⟩
instance : Div Binary64 := ⟨lift₂ (· / ·)⟩

def one : Binary64 := ofInt 1

def two : Binary64 := ofInt 2

def sqrt : Binary64 → Binary64 := lift Float.sqrt

def exp : Binary64 → Binary64 := lift Float.exp

def log : Binary64 → Binary64 := lift Float.log

def sin : Binary64 → Binary64 := lift Float.sin

def cos : Binary64 → Binary64 := lift Float.cos

def angle (x y : Binary64) : Binary64 := lift₂ (fun x y => Float.atan2 y x) x y

def isOddInt (x : Binary64) : Bool :=
  match toInt? x with
  | some n => n % 2 ≠ 0
  | none => false

/-- The power `x ^ y`. A zero exponent gives one and so does the base one, even beside NaN. An odd
power of NaN has the sign bit clear. -/
def pow (x y : Binary64) : Binary64 :=
  if isZero y || x = one then one
  else if isNaN x && isOddInt y then abs x
  else lift₂ Float.pow x y

/-! ### The hypotenuse -/

/-- The length of the hypotenuse above the sides `a ≥ b ≥ 0`, when the squares of the sides are
neither too large nor too small for a float. The rounded root `h` is corrected by the error that
`h * h` has, written so that it does not cancel. -/
def correctedRoot (a b : Float) : Float :=
  let h := (a * a + b * b).sqrt
  let error :=
    if h ≤ 2 * b then
      let d := h - b
      a * (2 * d - a) + (d - 2 * (a - b)) * d
    else
      let d := h - a
      2 * d * (a - 2 * b) + ((4 * d - b) * b + d * d)
  h - error / (2 * h)

def powerOfTwo (k : Int) : Float := toFloat (ofSignBits false ((1023 + k).toNat * leadingBit))

/-- The length of the hypotenuse above the sides `a ≥ b ≥ 0`. Sides with squares out of range are
scaled, and a side that is too short to matter is only added. -/
def hypotOrdered (a b : Float) : Float :=
  let unit := powerOfTwo (-600)
  let negligible := powerOfTwo (-54)
  if powerOfTwo 511 < a then
    if b ≤ a * negligible then a + b else correctedRoot (a * unit) (b * unit) / unit
  else if b < powerOfTwo (-459) then
    if b / negligible ≤ a then a + b else correctedRoot (a / unit) (b / unit) * unit
  else if b ≤ a * negligible then a + b
  else correctedRoot a b

def hypotFinite (x y : Float) : Float :=
  if x.abs < y.abs then hypotOrdered y.abs x.abs else hypotOrdered x.abs y.abs

/-- The length of the hypotenuse. An infinite side makes it infinite, even beside NaN. -/
def hypot (x y : Binary64) : Binary64 :=
  if isInfinite x || isInfinite y then infinity false else lift₂ hypotFinite x y

example : ofFloat 0.1 = ofDecimal 1 (-1) := by decide +kernel
example : infinity false - infinity false = nan true := by decide +kernel
example : -nan false + one = nan true := by decide +kernel
example : pow (nan true) (ofInt 3) = nan false ∧ pow (nan true) two = nan true := by decide +kernel
example : hypot (ofInt 3) (ofInt (-4)) = ofInt 5 := by decide +kernel
example : hypot (ofFloat 1e300) (ofFloat 1e300) = ofFloat 1.4142135623730952e300 := by
  decide +kernel

end BeginningStudent.Binary64
