import BeginningStudent.Proofs.LiteralGrammar
import Mathlib.Algebra.Group.Int.Defs
import Mathlib.Algebra.Group.Nat.Defs

/-!
# Scales computed in words

The scale of a decimal is computed in words that wrap around. Within the words it is the scale that
integers give (`Scale.of?_eq`), and its power is bounded by the limit on exponents and the number of
places. `Scale.exact_in_words_iff` says for which decimals the words suffice: of the texts that fit
into an address space, for all but those with the exponent `-2 ^ 63`, whose absolute value is no
word.
-/

namespace BeginningStudent
namespace Scale

/-- The scale of a decimal, computed in integers. -/
def inIntegers? (places : Nat) (exponent : Int) : Option Scale :=
  if exponent.natAbs ≤ 4096 then
    some (if places ≤ exponent then .times (exponent - places).toNat
      else .over (places - exponent).toNat)
  else none

/-- A step of the computation has a result that is no word. -/
def Overflows (places : Nat) (exponent : Int) : Prop :=
  exponent = -2 ^ 63 ∨ exponent.natAbs ≤ 4096 ∧ 2 ^ 63 ≤ places - exponent

instance (places : Nat) (exponent : Int) : Decidable (Overflows places exponent) :=
  inferInstanceAs (Decidable (_ ∨ _))

/-- The steps that are carried out for an exponent have the results they have in integers. -/
structure Exact (places : Nat) (e : Int64) : Prop where
  abs : e.abs.toInt = e.toInt.natAbs
  difference : e.abs ≤ exponentLimit → (shift places e).toInt = e.toInt - places
  negation : e.abs ≤ exponentLimit → shift places e < 0 →
    (-shift places e).toInt = -(shift places e).toInt

variable {places : Nat} {exponent : Int} {e x : Int64}

/-! ### Single steps -/

theorem word?_eq_some_iff : word? exponent = some e ↔ e.toInt = exponent := by
  rw [word?, Int64.toInt_minValue, Int64.toInt_maxValue]
  constructor
  · intro h
    split at h
    · next hrange =>
      cases h
      exact Int64.toInt_ofInt_of_le hrange.1 (by omega)
    · cases h
  · rintro rfl
    have hlower := e.le_toInt
    have hupper := e.toInt_lt
    rw [if_pos ⟨hlower, by omega⟩, Int64.ofInt_toInt]

/-- The least word is its own absolute value. -/
theorem toInt_abs (e : Int64) :
    e.abs.toInt = if e.toInt = -2 ^ 63 then -2 ^ 63 else (e.toInt.natAbs : Int) := by
  have hmin : e.toBitVec = BitVec.intMin 64 ↔ e.toInt = -2 ^ 63 := by
    rw [← Int64.toInt_toBitVec, ← BitVec.toInt_inj]
    rfl
  rw [← Int64.toInt_toBitVec e.abs, ← Int64.toInt_toBitVec e]
  exact (BitVec.toInt_abs_eq_natAbs).trans (by simp only [hmin, Int64.toInt_toBitVec]; rfl)

theorem toInt_neg (h : x.toInt ≠ -2 ^ 63) : (-x).toInt = -x.toInt := by
  have hlower := x.le_toInt
  have hupper := x.toInt_lt
  rw [Int64.toInt_neg]
  exact Int.bmod_eq_of_le (by omega) (by omega)

theorem toInt_shift (places : Nat) (e : Int64) :
    (shift places e).toInt = (e.toInt - places).bmod (2 ^ 64) := by
  rw [shift, Int64.toInt_sub, Int64.toInt_ofNat']
  exact Int.sub_bmod_bmod

theorem abs_le_limit_iff : e.abs ≤ exponentLimit ↔ e.toInt = -2 ^ 63 ∨ e.toInt.natAbs ≤ 4096 := by
  have hlimit : exponentLimit.toInt = 4096 := by decide
  rw [Int64.le_iff_toInt_le, toInt_abs, hlimit]
  split <;> omega

theorem toNat_toUInt64 (h : 0 ≤ x.toInt) : x.toUInt64.toNat = x.toInt.toNat :=
  Int64.toNat_toUInt64_of_le (Int64.le_iff_toInt_le.mpr h)

/-! ### The whole computation -/

/-- An exponent whose absolute value is within the limit is shifted without wrapping around. -/
theorem toInt_shift_eq (habs : e.toInt.natAbs ≤ 4096) (hplaces : places - e.toInt ≤ 2 ^ 63) :
    (shift places e).toInt = e.toInt - places := by
  rw [toInt_shift]
  exact Int.bmod_eq_of_le (by omega) (by omega)

theorem exact_of_not_overflows (h : ¬Overflows places e.toInt) : Exact places e := by
  obtain ⟨hmin, hplaces⟩ := not_or.mp h
  have hdifference : e.abs ≤ exponentLimit → (shift places e).toInt = e.toInt - places := by
    intro habs
    have hsmall : e.toInt.natAbs ≤ 4096 := (abs_le_limit_iff.mp habs).resolve_left hmin
    exact toInt_shift_eq hsmall (by omega)
  refine ⟨by rw [toInt_abs, if_neg hmin], hdifference, fun habs _ => toInt_neg ?_⟩
  have hsmall : e.toInt.natAbs ≤ 4096 := (abs_le_limit_iff.mp habs).resolve_left hmin
  rw [hdifference habs]
  omega

theorem not_exact_of_overflows (h : Overflows places e.toInt) : ¬Exact places e := by
  intro hexact
  rcases h with hmin | ⟨hsmall, hplaces⟩
  · have habs := hexact.abs
    rw [toInt_abs, if_pos hmin, hmin] at habs
    omega
  · have habs : e.abs ≤ exponentLimit := abs_le_limit_iff.mpr (.inr hsmall)
    have hdifference := hexact.difference habs
    have hnegative : shift places e < 0 := by
      rw [Int64.lt_iff_toInt_lt, hdifference, Int64.toInt_zero]
      omega
    have hnegation := hexact.negation habs hnegative
    have hupper := (-shift places e).toInt_lt
    omega

/-- Within the words, the scale is the one that integers give. -/
theorem of?_eq (h : ¬Overflows places exponent) :
    of? places exponent = inIntegers? places exponent := by
  unfold of? inIntegers?
  cases hword : word? exponent with
  | none =>
    have hrange : ¬exponent.natAbs ≤ 4096 := by
      intro hsmall
      rw [word?, if_pos] at hword
      · cases hword
      · rw [Int64.toInt_minValue, Int64.toInt_maxValue]
        omega
    rw [if_neg hrange]
  | some e =>
    obtain rfl := word?_eq_some_iff.mp hword
    have hexact := exact_of_not_overflows h
    obtain ⟨hmin, hplaces⟩ := not_or.mp h
    by_cases hsmall : e.toInt.natAbs ≤ 4096
    · have habs : e.abs ≤ exponentLimit := abs_le_limit_iff.mpr (.inr hsmall)
      have hdifference := hexact.difference habs
      have hsign : 0 ≤ shift places e ↔ (places : Int) ≤ e.toInt := by
        rw [Int64.le_iff_toInt_le, hdifference, Int64.toInt_zero]
        omega
      rw [if_pos hsmall]
      simp only [if_neg (Int64.not_lt.mpr habs), ofShift, hsign]
      split
      · rw [toNat_toUInt64 (by omega), hdifference]
      · next hlt =>
        have hnegation := hexact.negation habs (Int64.not_le.mp (mt hsign.mp hlt))
        rw [toNat_toUInt64 (by omega), hnegation, hdifference]
        congr 2
        omega
    · have habs : ¬e.abs ≤ exponentLimit := by
        rw [abs_le_limit_iff]
        omega
      rw [if_neg hsmall]
      simp only [if_pos (Int64.not_le.mp habs)]

theorem power_le {s : Scale} (h : inIntegers? places exponent = some s) :
    s.power ≤ 4096 + places := by
  unfold inIntegers? at h
  split at h
  · cases h
    split <;> simp only [power] <;> omega
  · cases h

theorem word?_of_overflows (h : Overflows places exponent) : ∃ e, word? exponent = some e := by
  refine ⟨.ofInt exponent, if_pos ?_⟩
  rw [Int64.toInt_minValue, Int64.toInt_maxValue]
  unfold Overflows at h
  omega

/-- For the least exponent the absolute value wraps around, and so the limit is passed. What is
asked for is a power that no memory holds, of the wrong sign if there are places. -/
theorem of?_least (hplaces : places < 2 ^ 63) :
    of? places (-2 ^ 63) =
      some (if places = 0 then .over (2 ^ 63) else .times (2 ^ 63 - places)) := by
  have hword : word? (-2 ^ 63) = some Int64.minValue := by decide
  have habs : ¬exponentLimit < Int64.minValue.abs := by decide
  unfold of?
  simp only [hword, if_neg habs]
  by_cases hzero : places = 0
  · subst hzero
    decide
  · have hshift : (shift places Int64.minValue).toInt = 2 ^ 63 - places := by
      rw [toInt_shift, Int64.toInt_minValue, ← Int.add_bmod_right (-2 ^ 63 - places) (2 ^ 64)]
      exact (Int.bmod_eq_of_le (by omega) (by omega)).trans (by omega)
    have hsign : 0 ≤ shift places Int64.minValue := by
      rw [Int64.le_iff_toInt_le, hshift, Int64.toInt_zero]
      omega
    have hpower : (2 ^ 63 - places : Int).toNat = 2 ^ 63 - places := by omega
    rw [if_neg hzero, ofShift, if_pos hsign, toNat_toUInt64 (by omega), hshift, hpower]

end Scale

open Literal in
theorem Literal.Magnitude.SpelledBy.places_le {digits places : Nat} {exponent : Int}
    {text : List Char} (h : (Magnitude.decimal digits places exponent).SpelledBy text) :
    places ≤ text.length := by
  cases h <;> simp <;> omega

namespace Scale

open Literal

/-- The words suffice for the scale of a decimal, and its power is bounded, unless the exponent is
the least word or there are almost as many places as there are words. -/
theorem exact_in_words_iff {digits places : Nat} {exponent : Int} {text : List Char}
    (h : (Magnitude.decimal digits places exponent).SpelledBy text) :
    ((∀ e, word? exponent = some e → Exact places e) ∧
        (∀ s, of? places exponent = some s → s.power ≤ 4096 + places) ↔
      ¬Overflows places exponent) ∧
    (text.length + 4096 < 2 ^ 63 → (Overflows places exponent ↔ exponent = -2 ^ 63)) ∧
    (text.length < 2 ^ 63 → exponent = -2 ^ 63 →
      of? places exponent =
        some (if places = 0 then .over (2 ^ 63) else .times (2 ^ 63 - places))) := by
  have hplaces := h.places_le
  refine ⟨⟨?_, ?_⟩, ?_, ?_⟩
  · intro ⟨hexact, _⟩ hoverflows
    obtain ⟨e, hword⟩ := word?_of_overflows hoverflows
    obtain rfl := word?_eq_some_iff.mp hword
    exact not_exact_of_overflows hoverflows (hexact e hword)
  · intro hfits
    refine ⟨fun e hword => ?_, fun s hs => power_le (of?_eq hfits ▸ hs)⟩
    obtain rfl := word?_eq_some_iff.mp hword
    exact exact_of_not_overflows hfits
  · intro hlength
    unfold Overflows
    omega
  · rintro hlength rfl
    exact of?_least (by omega)

theorem exact_in_words_at_limit :
    (Magnitude.decimal 125 2 (-4096)).SpelledBy "1.25e-4096".toList ∧
      ∀ s, of? 2 (-4096) = some s → s.power ≤ 4096 + 2 := by
  have hspelled : (Magnitude.decimal 125 2 (-4096)).SpelledBy "1.25e-4096".toList :=
    unsigned?_iff.mp (by decide +kernel)
  exact ⟨hspelled, ((exact_in_words_iff hspelled).1.mpr (by decide)).2⟩

/-- With the least exponent, the absolute value is no word and the power is not bounded. -/
theorem not_exact_at_least_exponent :
    (Magnitude.decimal 1 0 (-2 ^ 63)).SpelledBy "1e-9223372036854775808".toList ∧
      word? (-2 ^ 63) = some Int64.minValue ∧ ¬Exact 0 Int64.minValue ∧
      of? 0 (-2 ^ 63) = some (.over (2 ^ 63)) ∧ ¬(Scale.over (2 ^ 63)).power ≤ 4096 + 0 := by
  refine ⟨unsigned?_iff.mp (by decide +kernel), by decide,
    not_exact_of_overflows (.inl Int64.toInt_minValue), of?_least (by decide), by decide⟩

end Scale
end BeginningStudent
