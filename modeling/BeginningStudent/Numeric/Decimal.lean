import BeginningStudent.Numeric.Binary64

/-!
# Decimal text of numbers

The decimal text of integers, and the shortest decimal that reads back as a given float. Texts are
positional: no exponent is ever written.
-/

namespace BeginningStudent.Decimal

/-! ### Integers -/

def natText (n : Nat) : List Char := Nat.toDigits 10 n

def intText (n : Int) : List Char := if n < 0 then '-' :: natText n.natAbs else natText n.natAbs

/-! ### Positional text -/

/-- The text of `c · 10^k`: zeros behind the digits, or a point with at least one digit before
it. -/
def positional (c : Nat) (k : Int) : List Char :=
  let digits := natText c
  if 0 ≤ k then digits ++ List.replicate k.toNat '0'
  else
    let places := (-k).toNat
    let padded := List.replicate (places + 1 - digits.length) '0' ++ digits
    padded.take (padded.length - places) ++ '.' :: padded.drop (padded.length - places)

/-! ### Shortest decimals -/

/-- An interval of positive rationals around `value`, each bound a multiple of `1 / den`. -/
structure Interval where
  low : Nat
  value : Nat
  high : Nat
  den : Nat
  /-- Do the bounds belong to the interval? -/
  closed : Bool

/-- The positive numbers that round to the float `m · 2^e`. Half a unit on each side, but only a
quarter below a power of two, where floats are twice as dense. The bounds round to the even
significand. -/
def roundingInterval (m : Nat) (e : Int) : Interval :=
  let below := if m = Binary64.leadingBit ∧ -1074 < e then 1 else 2
  { low := (4 * m - below) <<< (e - 2).toNat
    value := (4 * m) <<< (e - 2).toNat
    high := (4 * m + 2) <<< (e - 2).toNat
    den := 1 <<< (2 - e).toNat
    closed := m % 2 = 0 }

/-- The largest `p` with `10^p ≤ n / d`, for positive `n` and `d`. -/
def ratioLog10 (n d : Nat) : Int :=
  let fits (p : Int) : Bool := d * Nat.pow 10 p.toNat ≤ n * Nat.pow 10 (-p).toNat
  let p := Binary64.ratioLog2 n d * 30103 / 100000
  if fits (p + 1) then p + 1 else if fits p then p else p - 1

/-- The multiple of `10^k` that lies in the interval and is nearest to its value: one of the two
neighbours of the value, the upper one where both are equally near. -/
def Interval.nearest? (i : Interval) (k : Int) : Option Nat :=
  let a := i.den * Nat.pow 10 k.toNat
  let b := Nat.pow 10 (-k).toNat
  let inside (c : Nat) : Bool :=
    if i.closed then i.low * b ≤ c * a && c * a ≤ i.high * b
    else i.low * b < c * a && c * a < i.high * b
  let c := i.value * b / a
  let upper := (2 * c + 1) * a ≤ 2 * i.value * b
  if inside c && inside (c + 1) then some (if upper then c + 1 else c)
  else if inside c then some c
  else if inside (c + 1) then some (c + 1)
  else none

/-- The shortest decimal `c · 10^k` in the interval, as `(c, k)`. Seventeen digits always suffice
for a float. The first grid is the one of the power of ten above the value, which may be the only
short decimal in the interval. -/
def Interval.shortest (i : Interval) : Nat × Int :=
  let p := ratioLog10 i.value i.den + 1
  let grid (places : Nat) : Option (Nat × Int) := (i.nearest? (p - places)).map (·, p - places)
  ((List.range 18).findSome? grid).getD (0, 0)

/-- The shortest positional text that reads back as the finite float `x`. -/
def floatText (x : Binary64) : List Char :=
  let sign := if x.signBit then ['-'] else []
  let m := x.significand
  if m = 0 then sign ++ ['0']
  else
    let (c, k) := (roundingInterval m x.exponent).shortest
    sign ++ positional c k

example : floatText (.ofDecimal 1 (-1)) = "0.1".toList := by decide +kernel
example : floatText (.ofDecimal 1 (-6)) = "0.000001".toList := by decide +kernel
example : floatText (.ofDecimal 1 21) = "1000000000000000000000".toList := by decide +kernel
example : floatText (.zero true) = "-0".toList := by decide +kernel
example : floatText ⟨0x3fd3333333333334⟩ = "0.30000000000000004".toList := by decide +kernel

end BeginningStudent.Decimal
