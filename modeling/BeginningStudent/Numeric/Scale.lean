/-!
# Scales of decimals

The exact value of a decimal `digits · 10^(exponent - places)` is its digits times or over a power
of ten. Which power that is, is computed in signed words of 64 bits, which wrap around. An exponent
has no scale if it does not fit into a word, or if its absolute value as a word is beyond a limit.
-/

namespace BeginningStudent

inductive Scale where
  | times (power : Nat)
  | over (power : Nat)
deriving DecidableEq, Repr

namespace Scale

/-- The largest exponent, in magnitude, for which a decimal has an exact value. -/
def exponentLimit : Int64 := 4096

def word? (exponent : Int) : Option Int64 :=
  if Int64.minValue.toInt ≤ exponent ∧ exponent ≤ Int64.maxValue.toInt then some (.ofInt exponent)
  else none

def shift (places : Nat) (exponent : Int64) : Int64 := exponent - .ofNat places

def ofShift (shift : Int64) : Scale :=
  if 0 ≤ shift then .times shift.toUInt64.toNat else .over (-shift).toUInt64.toNat

def of? (places : Nat) (exponent : Int) : Option Scale :=
  match word? exponent with
  | none => none
  | some e => if exponentLimit < e.abs then none else some (ofShift (shift places e))

def power : Scale → Nat
  | .times n | .over n => n

def apply (digits : Nat) : Scale → Rat
  | .times n => (digits * Nat.pow 10 n : Nat)
  | .over n => mkRat digits (Nat.pow 10 n)

example : of? 2 4 = some (.times 2) ∧ of? 4 2 = some (.over 2) ∧ of? 0 (-4097) = none := by
  decide +kernel

end Scale
end BeginningStudent
