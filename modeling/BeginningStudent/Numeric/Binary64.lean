/-!
# 64-bit floats

A float is given by its bits: a sign, eleven bits of a biased exponent and 52 bits of a
significand. A finite float is `± m · 2^e` for a natural significand `m < 2^53` and an exponent
`e ≥ -1074`. This module gives the rational that a float denotes, the float nearest to a rational
(ties go to the even significand, values beyond the range to an infinity), and the order of
floats. NaN has a sign bit like any other float: no text shows it, but a square root does.
-/

namespace BeginningStudent

structure Binary64 where
  bits : UInt64
deriving DecidableEq

namespace Binary64

/-! ### The parts of a float -/

/-- The leading bit of a normal significand, `2^52`. The bits of a float below it are the stored
part of the significand; the eleven bits from it upward are the biased exponent. -/
def leadingBit : Nat := 0x10000000000000

def signWeight : Nat := 2048 * leadingBit

/-- Is the sign bit set? It is for negative numbers, for `-0.0` and for some NaNs. -/
def signBit (x : Binary64) : Bool := signWeight ≤ x.bits.toNat

/-- The bits below the sign. As a number they order floats by magnitude. -/
def magnitude (x : Binary64) : Nat := x.bits.toNat % signWeight

/-- The biased exponent, `2047` for the infinities and for NaN. -/
def exponentField (x : Binary64) : Nat := x.bits.toNat / leadingBit % 2048

def fraction (x : Binary64) : Nat := x.bits.toNat % leadingBit

/-- The significand, with the leading bit that a normal number does not store. -/
def significand (x : Binary64) : Nat :=
  if exponentField x = 0 then fraction x else leadingBit + fraction x

def exponent (x : Binary64) : Int :=
  if exponentField x = 0 then -1074 else (exponentField x : Int) - 1075

/-! ### Kinds of floats -/

def isFinite (x : Binary64) : Bool := exponentField x ≠ 2047

def isInfinite (x : Binary64) : Bool := exponentField x = 2047 ∧ fraction x = 0

def isNaN (x : Binary64) : Bool := exponentField x = 2047 ∧ fraction x ≠ 0

def isZero (x : Binary64) : Bool := magnitude x = 0

def ofSignBits (negative : Bool) (bits : Nat) : Binary64 :=
  ⟨UInt64.ofNat (if negative then signWeight + bits else bits)⟩

def zero (negative : Bool) : Binary64 := ofSignBits negative 0

def infinity (negative : Bool) : Binary64 := ofSignBits negative (2047 * leadingBit)

def nan (negative : Bool) : Binary64 := ofSignBits negative (2047 * leadingBit + leadingBit / 2)

/-- The float with the other sign. NaN, too, changes its sign. -/
instance : Neg Binary64 := ⟨fun x => ofSignBits (!signBit x) (magnitude x)⟩

def abs (x : Binary64) : Binary64 := ofSignBits false (magnitude x)

/-! ### Exact values -/

def scale (m : Nat) (e : Int) : Rat :=
  if 0 ≤ e then (m <<< e.toNat : Nat) else mkRat m (1 <<< (-e).toNat)

/-- The rational that a finite float denotes; none for the infinities and NaN. -/
def toRat? (x : Binary64) : Option Rat :=
  if isFinite x then
    let value := scale (significand x) (exponent x)
    some (if signBit x then -value else value)
  else none

/-! ### The nearest float -/

/-- The quotient `n / d` rounded to the nearest natural number, a half going to the even one. -/
def roundDiv (n d : Nat) : Nat :=
  let q := n / d
  let r := n % d
  if 2 * r < d then q else if d < 2 * r then q + 1 else q + q % 2

/-- The largest `k` with `2^k ≤ n / d`, for positive `n` and `d`. -/
def ratioLog2 (n d : Nat) : Int :=
  let k : Int := (n.log2 : Int) - d.log2
  if d <<< k.toNat ≤ n <<< (-k).toNat then k else k - 1

/-- The bits, without the sign, of the float nearest to `n / d`. The exponent is the least that
leaves room for 53 bits, but at least `-1074`. A significand that is rounded up to `2^53` carries
into the exponent, as it should. -/
def nearestBits (n d : Nat) : Nat :=
  if n = 0 then 0
  else
    let e := max (ratioLog2 n d - 52) (-1074)
    let significand := roundDiv (n <<< (-e).toNat) (d <<< e.toNat)
    min ((e + 1074).toNat * leadingBit + significand) (2047 * leadingBit)

/-- The float nearest to a rational. A negative value too small for a float gives `-0.0`. -/
def ofRat (q : Rat) : Binary64 := ofSignBits (decide (q < 0)) (nearestBits q.num.natAbs q.den)

def ofInt (n : Int) : Binary64 := ofRat n

/-- The float nearest to `m · 10^e`. Values that are certainly out of range are answered without
computing a large power. -/
def ofDecimal (m : Nat) (e : Int) : Binary64 :=
  if m = 0 then zero false
  else if 400 < e then infinity false
  else if (m.log2 : Int) + 1 + 3 * e < -1200 then zero false
  else if 0 ≤ e then ofRat (m * Nat.pow 10 e.toNat : Nat)
  else ofRat (mkRat m (Nat.pow 10 (-e).toNat))

/-! ### Abridged integers -/

/-- Is one of the lowest `k` bits set in one of the lowest `words` words of `n`, of 64 bits each? -/
def anyLowBit (k words n : Nat) : Bool :=
  (List.range words).any fun i => (n >>> (64 * i)) % (1 <<< k) ≠ 0

/-- The leading 64 bits of a natural number, with zeros behind them. The last of the 64 is set if
a lower bit is, so that a number above a tie of two floats stays above it; but not every lower bit
is looked at, only as many bits at the end of each word as the leading word holds. -/
def abridge (n : Nat) : Nat :=
  let words := n.log2 / 64
  if words = 0 then n
  else
    let shift := n.log2 - 63
    let sticky := anyLowBit (n.log2 % 64 + 1) words n
    (n >>> shift ||| sticky.toNat) <<< shift

def ofIntAbridged (n : Int) : Binary64 :=
  ofSignBits (decide (n < 0)) (nearestBits (abridge n.natAbs) 1)

/-! ### Whole values -/

/-- Applies a rounding to an integer to the value of a finite float. A zero result keeps the sign
of the argument, and the infinities and NaN stay what they are. -/
def mapInt (f : Rat → Int) (x : Binary64) : Binary64 :=
  match toRat? x with
  | none => x
  | some q => if f q = 0 then zero (signBit x) else ofInt (f q)

def toInt? (x : Binary64) : Option Int :=
  match toRat? x with
  | some q => if q.den = 1 then some q.num else none
  | none => none

/-! ### Order -/

/-- The place of a float other than NaN in the order of floats. The two zeros share a place. -/
def place (x : Binary64) : Int := if signBit x then -(magnitude x : Int) else magnitude x

def compare (x y : Binary64) : Option Ordering :=
  if isNaN x || isNaN y then none else some (Ord.compare (place x) (place y))

/-- Is the float below zero? Neither NaN nor `-0.0` is. -/
def isNegative (x : Binary64) : Bool := !isNaN x && decide (place x < 0)

example : toRat? (ofDecimal 1 (-1)) = some (mkRat 3602879701896397 36028797018963968) := by
  decide +kernel
example : toRat? (zero true) = some 0 ∧ signBit (zero true) = true := by decide +kernel
example : compare (zero true) (zero false) = some .eq := by decide +kernel
example : compare (infinity true) (ofInt (-3)) = some .lt := by decide +kernel
example : abridge ((1 <<< 129) + 2) = (1 <<< 129) + (1 <<< 66) := by decide +kernel
example : abridge ((1 <<< 129) + 4) = 1 <<< 129 := by decide +kernel

end Binary64
end BeginningStudent
