import BeginningStudent.Proofs.GaussianRationals
import Mathlib.Data.Rat.Sqrt

/-!
# Exact roots

The numerator and the denominator of a square are squares, since it is in lowest terms when the
root is. So the square root looks at the two apart and finds the rational root of every rational
that has one (`RealNumber.ratSqrt?_eq_some_iff`). All other roots are floats
(`Number.exact_roots`).
-/

namespace BeginningStudent

namespace RealNumber

variable {q r : ℚ}

theorem mkRat_mul_self {n d : ℕ} (hn : n * n = q.num.natAbs) (hd : d * d = q.den) (hq : 0 ≤ q) :
    mkRat n d * mkRat n d = q := by
  have hnum : (n * n : ℚ) = q.num := by
    have hnatAbs : (q.num.natAbs : ℤ) = q.num := Int.natAbs_of_nonneg (Rat.num_nonneg.mpr hq)
    exact_mod_cast (congrArg (Nat.cast (R := ℤ)) hn).trans hnatAbs
  have hden : (d * d : ℚ) = q.den := by exact_mod_cast hd
  rw [Rat.mkRat_eq_div, div_mul_div_comm, Int.cast_natCast, hnum, hden, Rat.num_div_den]

/-- The rational root is found exactly where there is one. -/
theorem ratSqrt?_eq_some_iff (hq : 0 ≤ q) : ratSqrt? q = some r ↔ 0 ≤ r ∧ r * r = q := by
  unfold ratSqrt?
  dsimp only
  constructor
  · intro h
    split at h
    · next hsquares =>
      cases h
      exact ⟨Rat.mkRat_nonneg (Int.natCast_nonneg _) _,
        mkRat_mul_self hsquares.1 hsquares.2 hq⟩
    · cases h
  · rintro ⟨hr, rfl⟩
    rw [Rat.mul_self_num, Rat.mul_self_den, Int.natAbs_mul, Nat.sqrt_eq, Nat.sqrt_eq,
      if_pos ⟨rfl, rfl⟩, Int.natAbs_of_nonneg (Rat.num_nonneg.mpr hr), Rat.mkRat_self]

theorem sqrt_mul_self (hr : 0 ≤ r) : (exact (r * r)).sqrt = .exact r := by
  rw [sqrt, (ratSqrt?_eq_some_iff (mul_self_nonneg r)).mpr ⟨hr, rfl⟩]

theorem isExact_sqrt (hq : 0 ≤ q) : (exact q).sqrt.isExact = true ↔ IsSquare q := by
  constructor
  · rw [sqrt]
    cases hroot : ratSqrt? q with
    | some r => exact fun _ => ⟨r, ((ratSqrt?_eq_some_iff hq).mp hroot).2.symm⟩
    | none => rintro ⟨⟩
  · rintro ⟨r, rfl⟩
    rw [← abs_mul_abs_self, sqrt_mul_self (abs_nonneg r)]
    rfl

theorem abs_exact (q : ℚ) : (exact q).abs = .exact |q| := by
  rw [RealNumber.abs, isNegative]
  rcases le_or_gt 0 q with hq | hq
  · rw [if_neg (by simpa using hq), abs_of_nonneg hq]
  · rw [if_pos (by simpa using hq), abs_of_neg hq, negate]

end RealNumber

namespace Number

variable {p q r x : ℚ} {z : Number}

/-! ### Roots of reals -/

theorem sqrtReal_of_nonneg (hx : 0 ≤ x) : sqrtReal (.exact x) = real (RealNumber.exact x).sqrt :=
  if_neg (by simpa [RealNumber.isNegative] using hx)

theorem sqrtReal_of_neg (hx : x < 0) : sqrtReal (.exact x) =
    ofParts (if (RealNumber.exact (-x)).sqrt.isExact then .ofInt 0 else .float (.zero false))
      (RealNumber.exact (-x)).sqrt :=
  if_pos (by simpa [RealNumber.isNegative] using hx)

theorem isExact_sqrtReal (x : ℚ) : (sqrtReal (.exact x)).isExact = true ↔ IsSquare |x| := by
  rcases le_or_gt 0 x with hx | hx
  · rw [sqrtReal_of_nonneg hx, abs_of_nonneg hx]
    exact RealNumber.isExact_sqrt hx
  · rw [sqrtReal_of_neg hx, abs_of_neg hx, isExact_ofParts,
      ← RealNumber.isExact_sqrt (neg_nonneg.mpr hx.le)]
    cases (RealNumber.exact (-x)).sqrt.isExact <;> decide

theorem sqrtReal_mul_self (hr : 0 ≤ r) : sqrtReal (.exact (r * r)) = real (.exact r) := by
  rw [sqrtReal_of_nonneg (mul_self_nonneg r), RealNumber.sqrt_mul_self hr]

theorem sqrtReal_neg_mul_self (hr : 0 < r) :
    sqrtReal (.exact (-(r * r))) = complex (.exact 0) (.exact r) := by
  rw [sqrtReal_of_neg (neg_neg_of_pos (mul_pos hr hr)), neg_neg, RealNumber.sqrt_mul_self hr.le]
  exact if_neg (by simpa [RealNumber.isExactZero] using hr.ne')

theorem imaginary_mul_self (r : ℚ) :
    (complex (.exact 0) (.exact r)).mul (complex (.exact 0) (.exact r)) =
      real (.exact (-(r * r))) := by
  have hre : (RealNumber.exact (0 * 0)).add (RealNumber.exact (r * r)).negate =
      .exact (-(r * r)) := by
    rw [zero_mul]
    exact congrArg RealNumber.exact (zero_add _)
  have him : (RealNumber.exact (0 * r)).add (.exact (r * 0)) = .exact 0 := by
    rw [zero_mul, mul_zero]
    exact congrArg RealNumber.exact (zero_add _)
  have hmul : (complex (.exact 0) (.exact r)).mul (complex (.exact 0) (.exact r)) =
      ofParts ((RealNumber.exact (0 * 0)).add (RealNumber.exact (r * r)).negate)
        ((RealNumber.exact (0 * r)).add (.exact (r * 0))) := rfl
  rw [hmul, hre, him]
  rfl

/-! ### Magnitudes -/

/-- The magnitude of an exact number is the root of its squared magnitude, also for a real. -/
theorem magnitude_eq (hre : z.re = .exact p) (him : z.im = .exact q) :
    z.magnitude = sqrtReal (.exact (p * p + q * q)) := by
  cases z with
  | real a =>
    obtain rfl : a = .exact p := hre
    obtain rfl : 0 = q := RealNumber.exact.inj him
    rw [magnitude, RealNumber.abs_exact, mul_zero, add_zero, ← abs_mul_abs_self,
      sqrtReal_mul_self (abs_nonneg p)]
  | complex a b =>
    obtain rfl : a = .exact p := hre
    obtain rfl : b = .exact q := him
    rfl

/-- The root of a rational is exact when the rational, without its sign, is the square of a
rational, and then it is the root that is not negative, on the imaginary axis for a negative
rational. The magnitude of an exact number is exact under the same condition on the sum of the
squares of its parts. -/
theorem exact_roots :
    (∀ x : ℚ, ((real (.exact x)).sqrt.isExact = true ↔ IsSquare |x|) ∧
      ∀ r, 0 ≤ r → r * r = |x| →
        (0 ≤ x → (real (.exact x)).sqrt = real (.exact r)) ∧
        (x < 0 → (real (.exact x)).sqrt = complex (.exact 0) (.exact r)) ∧
        (real (.exact x)).sqrt.mul (real (.exact x)).sqrt = real (.exact x)) ∧
    ∀ (z : Number) (p q : ℚ), z.re = .exact p → z.im = .exact q →
      (z.magnitude.isExact = true ↔ IsSquare (p * p + q * q)) ∧
      ∀ r, 0 ≤ r → r * r = p * p + q * q → z.magnitude = real (.exact r) := by
  refine ⟨fun x => ⟨isExact_sqrtReal x, fun r hr hx => ?_⟩, fun z p q hre him => ⟨?_, ?_⟩⟩
  · rcases le_or_gt 0 x with hsign | hsign
    · rw [abs_of_nonneg hsign] at hx
      subst hx
      have hroot : (real (.exact (r * r))).sqrt = real (.exact r) := sqrtReal_mul_self hr
      refine ⟨fun _ => hroot, fun hneg => absurd hneg hsign.not_gt, ?_⟩
      rw [hroot]
      rfl
    · obtain rfl : x = -(r * r) := by rw [hx, abs_of_neg hsign, neg_neg]
      have hpos : 0 < r := hr.lt_of_ne fun h => by simp [← h] at hsign
      have hroot : (real (.exact (-(r * r)))).sqrt = complex (.exact 0) (.exact r) :=
        sqrtReal_neg_mul_self hpos
      refine ⟨fun h => absurd hsign h.not_gt, fun _ => hroot, ?_⟩
      rw [hroot, imaginary_mul_self]
  · have hsum : 0 ≤ p * p + q * q := add_nonneg (mul_self_nonneg p) (mul_self_nonneg q)
    rw [magnitude_eq hre him, isExact_sqrtReal, abs_of_nonneg hsum]
  · rintro r hr hsquare
    rw [magnitude_eq hre him, ← hsquare, sqrtReal_mul_self hr]

/-- The roots of `-9/4` and `2`, and the magnitudes of `3-4i` and `1+i`. -/
theorem exact_roots_pythagorean :
    (real (.exact (-9 / 4))).sqrt = complex (.exact 0) (.exact (3 / 2)) ∧
      (real (.exact 2)).sqrt.isExact = false ∧
      (complex (.exact 3) (.exact (-4))).magnitude = real (.exact 5) ∧
      (complex (.exact 1) (.exact 1)).magnitude.isExact = false := by
  obtain ⟨hsqrt, hmagnitude⟩ := exact_roots
  have htwo : ¬IsSquare (2 : ℚ) := by decide +kernel
  obtain ⟨-, hnegative, -⟩ := (hsqrt (-9 / 4)).2 (3 / 2) (by decide +kernel) (by decide +kernel)
  have hfive := (hmagnitude (complex (.exact 3) (.exact (-4))) 3 (-4) rfl rfl).2 5
    (by decide +kernel) (by decide +kernel)
  refine ⟨hnegative (by decide +kernel), ?_, hfive, ?_⟩
  · rw [← Bool.not_eq_true, (hsqrt 2).1, abs_two]
    exact htwo
  · rw [← Bool.not_eq_true, (hmagnitude _ 1 1 rfl rfl).1, one_mul, one_add_one_eq_two]
    exact htwo

end Number

end BeginningStudent
