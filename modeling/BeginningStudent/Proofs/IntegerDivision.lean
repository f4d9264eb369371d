import BeginningStudent.Proofs.Signs
import Mathlib.Data.Sign.Basic

/-!
# Integer division

`quotient`, `remainder` and `modulo` are one division with three rules, on two numbers of any kind
that denote integers. It fails on all other numbers and by a zero of any kind, and the result is
exact where both numbers are (`RealNumber.divideIntegers_outcome`). Between rationals the three
results are those of a truncating and of a flooring division
(`RealNumber.integer_division_laws`).
-/

namespace BeginningStudent

/-- The results of dividing `x` by `y`: a quotient with its remainder, which goes by the sign of
`x`, and a modulo, which goes by the sign of `y`. -/
structure DivisionLaws (x y quotient remainder modulo : ℚ) : Prop where
  whole : ∃ k : ℤ, quotient = k
  division : x = y * quotient + remainder
  remainder_lt : |remainder| < |y|
  remainder_sign : remainder = 0 ∨ SignType.sign remainder = SignType.sign x
  modulo_lt : |modulo| < |y|
  modulo_sign : modulo = 0 ∨ SignType.sign modulo = SignType.sign y
  multiple : ∃ k : ℤ, x - modulo = k * y

section Integers

variable {m n : ℤ}

theorem abs_tmod_lt (m : ℤ) (hn : n ≠ 0) : |m.tmod n| < |n| := by
  rw [Int.abs_eq_natAbs, Int.abs_eq_natAbs, Int.natAbs_tmod]
  exact_mod_cast Nat.mod_lt _ (Int.natAbs_pos.mpr hn)

theorem tmod_sign (m n : ℤ) : m.tmod n = 0 ∨ (m.tmod n).sign = m.sign := by
  rw [Int.sign_tmod]
  by_cases h : n ∣ m
  · exact .inl (Int.tmod_eq_zero_of_dvd h)
  · exact .inr (if_neg h)

/-- A flooring remainder is between zero and the divisor, on whichever side of zero that is. -/
theorem fmod_between (m : ℤ) (hn : n ≠ 0) :
    0 < n ∧ 0 ≤ m.fmod n ∧ m.fmod n < n ∨ n < 0 ∧ n < m.fmod n ∧ m.fmod n ≤ 0 := by
  rcases lt_or_gt_of_ne hn with hneg | hpos
  · have hlow := Int.fmod_nonneg_of_pos (-m) (b := -n) (by omega)
    have hhigh := Int.fmod_lt_of_pos (-m) (b := -n) (by omega)
    rw [Int.neg_fmod_neg] at hlow hhigh
    omega
  · exact .inl ⟨hpos, Int.fmod_nonneg_of_pos m hpos, Int.fmod_lt_of_pos m hpos⟩

theorem abs_fmod_lt (m : ℤ) (hn : n ≠ 0) : |m.fmod n| < |n| := by
  rcases fmod_between m hn with ⟨hpos, hlow, hhigh⟩ | ⟨hneg, hlow, hhigh⟩
  · rw [abs_of_nonneg hlow, abs_of_pos hpos]
    exact hhigh
  · rw [abs_of_nonpos hhigh, abs_of_neg hneg]
    omega

theorem fmod_sign (m : ℤ) (hn : n ≠ 0) : m.fmod n = 0 ∨ (m.fmod n).sign = n.sign := by
  by_cases hzero : m.fmod n = 0
  · exact .inl hzero
  refine .inr ?_
  rcases fmod_between m hn with ⟨hpos, hlow, -⟩ | ⟨hneg, -, hhigh⟩
  · rw [Int.sign_eq_one_of_pos hpos, Int.sign_eq_one_of_pos (by omega)]
  · rw [Int.sign_eq_neg_one_of_neg hneg, Int.sign_eq_neg_one_of_neg (by omega)]

theorem divisionLaws (m : ℤ) (hn : n ≠ 0) :
    DivisionLaws m n (m.tdiv n) (m.tmod n) (m.fmod n) := by
  have hinjective : ∀ s t : SignType, (s : ℤ) = t → s = t := by decide
  have hsign {i j : ℤ} (h : i = 0 ∨ i.sign = j.sign) :
      (i : ℚ) = 0 ∨ SignType.sign (i : ℚ) = SignType.sign (j : ℚ) := by
    rw [sign_intCast, sign_intCast, Int.cast_eq_zero]
    rw [Int.sign_eq_sign, Int.sign_eq_sign] at h
    exact h.imp_right (hinjective _ _)
  constructor
  case whole => exact ⟨_, rfl⟩
  case division => exact_mod_cast (Int.mul_tdiv_add_tmod m n).symm
  case remainder_lt => exact_mod_cast abs_tmod_lt m hn
  case remainder_sign => exact hsign (tmod_sign m n)
  case modulo_lt => exact_mod_cast abs_fmod_lt m hn
  case modulo_sign => exact hsign (fmod_sign m hn)
  case multiple =>
    refine ⟨m.fdiv n, ?_⟩
    have hdivision := Int.mul_fdiv_add_fmod m n
    rw [sub_eq_iff_eq_add]
    exact_mod_cast (by rw [mul_comm]; exact hdivision.symm)

end Integers

namespace RealNumber

variable {a b : RealNumber} {n : ℤ}

def IsWhole (a : RealNumber) : Prop := ∃ n : ℤ, a.toRat? = some (n : ℚ)

theorem toInt?_eq (a : RealNumber) :
    a.toInt? = a.toRat?.bind fun q => if q.den = 1 then some q.num else none := by
  cases a with
  | exact q | inexact q => rfl
  | float x =>
    show Binary64.toInt? x = x.toRat?.bind _
    unfold Binary64.toInt?
    cases x.toRat? <;> rfl

theorem toInt?_eq_some_iff : a.toInt? = some n ↔ a.toRat? = some (n : ℚ) := by
  rw [toInt?_eq, Option.bind_eq_some_iff]
  constructor
  · intro h
    obtain ⟨q, hq, hn⟩ := h
    rw [Option.ite_none_right_eq_some, Option.some_inj] at hn
    rw [hq, ← hn.2, Rat.coe_int_num_of_den_eq_one hn.1]
  · intro h
    exact ⟨n, h, by simp⟩

theorem toInt?_eq_none_iff : a.toInt? = none ↔ ¬a.IsWhole := by
  rw [Option.eq_none_iff_forall_ne_some]
  unfold IsWhole
  push Not
  exact forall_congr' fun n => not_congr toInt?_eq_some_iff

theorem isZero_iff_of_toInt? (h : a.toInt? = some n) : a.isZero = true ↔ n = 0 := by
  have hvalue : a.value? = some (Binary64.rationalValue n) := by
    have hn := toInt?_eq_some_iff.mp h
    cases a with
    | exact q | inexact q => exact congrArg (Option.map Binary64.rationalValue) hn
    | float x => exact value?_of_toRat? hn
  rw [(sign_by_value hvalue).2.1, Binary64.rationalValue_strictMono.injective.eq_iff,
    Int.cast_eq_zero]

theorem toRat?_of_rational {x : ℚ} (ha : a.rational? = some x) : a.toRat? = some x := by
  cases a <;> cases ha <;> rfl

theorem intValue_of_rational {x : ℚ} (ha : a.rational? = some x) (hw : a.IsWhole) :
    ∃ m : ℤ, x = m := by
  obtain ⟨m, hm⟩ := hw
  exact ⟨m, Option.some.inj ((toRat?_of_rational ha).symm.trans hm)⟩

/-! ### Outcomes -/

theorem isExact_like_higherKind (a b : RealNumber) (n : ℤ) :
    ((higherKind a b).like n).isExact = (a.isExact && b.isExact) := by
  cases a <;> cases b <;> rfl

theorem rational?_like_higherKind {x y : ℚ} (ha : a.rational? = some x) (hb : b.rational? = some y)
    (n : ℤ) : ((higherKind a b).like n).rational? = some (n : ℚ) := by
  cases a <;> cases ha <;> cases b <;> cases hb <;> rfl

/-- A division of whole numbers, by its three outcomes. -/
theorem divideIntegers_outcome (divide : ℤ → ℤ → ℤ) (a b : RealNumber) :
    (divideIntegers divide a b = .error .noExactRepresentation ↔ ¬(a.IsWhole ∧ b.IsWhole)) ∧
      (divideIntegers divide a b = .error .divideByZero ↔
        a.IsWhole ∧ b.IsWhole ∧ b.isZero = true) ∧
      (a.IsWhole → b.IsWhole → b.isZero = false →
        ∃ c, divideIntegers divide a b = .ok c ∧ c.isExact = (a.isExact && b.isExact)) := by
  unfold divideIntegers
  cases hm : a.toInt? with
  | none =>
    have ha := toInt?_eq_none_iff.mp hm
    simp [ha]
  | some m =>
    have ha : a.IsWhole := ⟨m, toInt?_eq_some_iff.mp hm⟩
    cases hn : b.toInt? with
    | none =>
      have hb := toInt?_eq_none_iff.mp hn
      simp [hb]
    | some n =>
      have hb : b.IsWhole := ⟨n, toInt?_eq_some_iff.mp hn⟩
      have hzero := isZero_iff_of_toInt? hn
      by_cases h : n = 0
      · simp [ha, hb, h, hzero.mpr h]
      · have hnonzero : b.isZero = false := Bool.eq_false_iff.mpr fun hz => h (hzero.mp hz)
        simp [ha, hb, h, hnonzero, isExact_like_higherKind]

theorem divideIntegers_rational (divide : ℤ → ℤ → ℤ) {m n : ℤ} (ha : a.rational? = some (m : ℚ))
    (hb : b.rational? = some (n : ℚ)) (hn : n ≠ 0) :
    ∃ c, divideIntegers divide a b = .ok c ∧ c.rational? = some (divide m n : ℚ) := by
  refine ⟨(higherKind a b).like (divide m n), ?_, rational?_like_higherKind ha hb _⟩
  have hm : a.toInt? = some m := toInt?_eq_some_iff.mpr (toRat?_of_rational ha)
  have hn' : b.toInt? = some n := toInt?_eq_some_iff.mpr (toRat?_of_rational hb)
  rw [divideIntegers, hm, hn']
  exact if_neg hn

/-- Integer division of any two reals. -/
theorem integer_division_laws (a b : RealNumber) :
    (∀ divide ∈ [quotient, remainder, modulo],
      (divide a b = .error .noExactRepresentation ↔ ¬(a.IsWhole ∧ b.IsWhole)) ∧
      (divide a b = .error .divideByZero ↔ a.IsWhole ∧ b.IsWhole ∧ b.isZero = true) ∧
      (a.IsWhole → b.IsWhole → b.isZero = false →
        ∃ c, divide a b = .ok c ∧ c.isExact = (a.isExact && b.isExact))) ∧
    ∀ x y, a.rational? = some x → b.rational? = some y → a.IsWhole → b.IsWhole → y ≠ 0 →
      ∃ q r m u v w, a.quotient b = .ok q ∧ a.remainder b = .ok r ∧ a.modulo b = .ok m ∧
        q.rational? = some u ∧ r.rational? = some v ∧ m.rational? = some w ∧
        DivisionLaws x y u v w := by
  constructor
  · intro divide hdivide
    simp only [List.mem_cons, List.not_mem_nil, or_false] at hdivide
    rcases hdivide with rfl | rfl | rfl
    · exact divideIntegers_outcome Int.tdiv a b
    · exact divideIntegers_outcome Int.tmod a b
    · exact divideIntegers_outcome Int.fmod a b
  · intro x y hx hy ha hb hne
    obtain ⟨m, rfl⟩ := intValue_of_rational hx ha
    obtain ⟨n, rfl⟩ := intValue_of_rational hy hb
    have hn : n ≠ 0 := by exact_mod_cast hne
    obtain ⟨q, hq, hu⟩ := divideIntegers_rational Int.tdiv hx hy hn
    obtain ⟨r, hr, hv⟩ := divideIntegers_rational Int.tmod hx hy hn
    obtain ⟨s, hs, hw⟩ := divideIntegers_rational Int.fmod hx hy hn
    exact ⟨q, r, s, _, _, _, hq, hr, hs, hu, hv, hw, divisionLaws m hn⟩

/-- `-7` divided by the inexact `2`. -/
theorem integer_division_laws_seven_two :
    ∃ q r m u v w, (exact (-7)).quotient (inexact 2) = .ok q ∧
      (exact (-7)).remainder (inexact 2) = .ok r ∧ (exact (-7)).modulo (inexact 2) = .ok m ∧
      q.rational? = some u ∧ r.rational? = some v ∧ m.rational? = some w ∧
      DivisionLaws (-7) 2 u v w :=
  (integer_division_laws (exact (-7)) (inexact 2)).2 (-7) 2 rfl rfl ⟨-7, rfl⟩ ⟨2, rfl⟩
    (by norm_num)

end RealNumber
end BeginningStudent
