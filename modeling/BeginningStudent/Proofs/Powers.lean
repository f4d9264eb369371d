import BeginningStudent.Proofs.GaussianRationals

/-!
# Powers with integer exponents

Repeated squaring reads the exponent bit by bit. What it keeps is the product of what has been
multiplied so far and the power of the square that is still to come, in any monoid that the
multiplication of numbers follows (`Number.mulPow_invariant`). So the powers of exact numbers are
those of their field, and the value of a power is the power of the value
(`Number.powers_are_repeated_products`).
-/

namespace BeginningStudent

namespace Number

/-- One, multiplied by the number `n` times. -/
def repeated (z : Number) : ℕ → Number
  | 0 => .ofInt 1
  | n + 1 => (z.repeated n).mul z

variable {acc square z : Number}

/-! ### Repeated squaring -/

theorem mulPow_zero (acc square : Number) : mulPow acc square 0 = acc := by
  rw [mulPow, if_pos rfl]

theorem mulPow_step (acc square : Number) {n : ℕ} (hn : n ≠ 0) :
    mulPow acc square n =
      mulPow (if n % 2 = 1 then acc.mul square else acc) (square.mul square) (n / 2) := by
  rw [mulPow, if_neg hn]
  dsimp only
  by_cases hlast : n / 2 = 0
  · rw [if_pos hlast, hlast, mulPow_zero]
  · rw [if_neg hlast]

section Invariant

variable {M : Type} [Monoid M] {R : Number → M → Prop} {a s : M}

theorem mul_pow_bits (a s : M) (n : ℕ) : a * s ^ (n % 2) * (s * s) ^ (n / 2) = a * s ^ n := by
  rw [mul_assoc, ← pow_two, ← pow_mul, ← pow_add, Nat.mod_add_div]

/-- Where multiplication follows that of a monoid, repeated squaring follows its powers. -/
theorem mulPow_invariant
    (hmul : ∀ {z w : Number} {v u : M}, R z v → R w u → R (z.mul w) (v * u))
    (hacc : R acc a) (hs : R square s) (n : ℕ) : R (mulPow acc square n) (a * s ^ n) := by
  induction n using Nat.strongRecOn generalizing acc square a s with
  | ind n ih =>
    by_cases hn : n = 0
    · rw [hn, mulPow_zero, pow_zero, mul_one]
      exact hacc
    · have hnext : R (if n % 2 = 1 then acc.mul square else acc) (a * s ^ (n % 2)) := by
        split
        · next hodd =>
          rw [hodd, pow_one]
          exact hmul hacc hs
        · next heven =>
          rw [Nat.mod_two_ne_one.mp heven, pow_zero, mul_one]
          exact hacc
      rw [mulPow_step acc square hn, ← mul_pow_bits]
      exact ih (n / 2) (Nat.div_lt_self (Nat.pos_of_ne_zero hn) Nat.one_lt_two) hnext (hmul hs hs)

end Invariant

theorem value?_mulPow {a v : GaussianRational} (hacc : acc.value? = some a)
    (hz : z.value? = some v) (n : ℕ) : (mulPow acc z n).value? = some (a * v ^ n) :=
  mulPow_invariant (R := fun z v => z.value? = some v) value?_mul hacc hz n

theorem isExact_mulPow (acc z : Number) (n : ℕ) :
    (mulPow acc z n).isExact.toNat = acc.isExact.toNat * z.isExact.toNat ^ n := by
  refine mulPow_invariant (R := fun z k => z.isExact.toNat = k) ?_ rfl rfl n
  rintro z w _ _ rfl rfl
  rw [isExact_mul]
  cases z.isExact <;> cases w.isExact <;> rfl

/-! ### Integer exponents -/

theorem expt_ofInt (z : Number) (n : ℤ) : z.expt (.ofInt n) = z.intPow n := by
  rw [ofInt, RealNumber.ofInt, expt]
  exact if_pos rfl

theorem expt_of_ne_ofInt {w : Number} (hw : ∀ n, w ≠ .ofInt n) :
    z.expt w = .ok (expt.inexactPow z w) := by
  rw [expt.eq_def]
  split
  · next q =>
    refine if_neg fun hq => hw q.num ?_
    rw [ofInt, RealNumber.ofInt, Rat.coe_int_num_of_den_eq_one hq]
  · rfl

theorem intPow_natCast (z : Number) (n : ℕ) : z.intPow n = .ok (mulPow (.ofInt 1) z n) := by
  rw [intPow, if_neg (by omega)]
  rfl

theorem intPow_neg (z : Number) {n : ℕ} (hn : 0 < n) :
    z.intPow (-n) = (mulPow (.ofInt 1) · n) <$> z.invert := by
  rw [intPow, if_pos (by omega), Int.natAbs_neg, Int.natAbs_natCast]
  cases z.invert <;> rfl

theorem value?_one : (ofInt 1).value? = some 1 := rfl

end Number

namespace ExactNumber

open Number

variable {b : ExactNumber}

theorem val_pow (b : ExactNumber) (n : ℕ) : (b ^ n).1 = b.1.repeated n := by
  induction n with
  | zero =>
    rw [pow_zero]
    exact val_one
  | succ n ih => rw [pow_succ, val_mul, ih, repeated]

theorem mulPow_val (b : ExactNumber) (n : ℕ) : mulPow (.ofInt 1) b.1 n = (b ^ n).1 := by
  rw [← one_mul (b ^ n)]
  refine (mulPow_invariant (R := fun z (a : ExactNumber) => a.1 = z) ?_ val_one rfl n).symm
  rintro _ _ a c rfl rfl
  exact val_mul

/-- The powers of exact numbers are those of their field. -/
theorem expt_val (hb : b ≠ 0) (n : ℤ) : b.1.expt (.ofInt n) = .ok (b ^ n).1 := by
  rw [expt_ofInt]
  rcases lt_or_ge n 0 with hn | hn
  · obtain ⟨k, rfl⟩ := Int.exists_eq_neg_ofNat hn.le
    rw [intPow_neg _ (by omega), invert_val hb, zpow_neg, zpow_natCast, ← inv_pow, ← mulPow_val]
    rfl
  · obtain ⟨k, rfl⟩ := Int.eq_ofNat_of_zero_le hn
    rw [intPow_natCast, mulPow_val, zpow_natCast]

end ExactNumber

namespace Number

/-- A power of an exact number is the number itself taken as often as the exponent says, or its
inverse for a negative exponent, and exponents add up. A power of an inexact number without floats
has the power of the value and is inexact, unless the exponent is zero. -/
theorem powers_are_repeated_products :
    (∀ b : Number, b.isExact = true → b.Collapsed →
      (∀ n : ℕ, b.expt (.ofInt n) = .ok (b.repeated n)) ∧
      (b ≠ .ofInt 0 →
        (∃ c, b.invert = .ok c ∧ b.mul c = .ofInt 1 ∧
          ∀ n : ℕ, 0 < n → b.expt (.ofInt (-n)) = .ok (c.repeated n)) ∧
        ∀ m n : ℤ, ∃ x y, b.expt (.ofInt m) = .ok x ∧ b.expt (.ofInt n) = .ok y ∧
          b.expt (.ofInt (m + n)) = .ok (x.mul y))) ∧
    ∀ (b : Number) (v : GaussianRational), b.isExact = false → b.value? = some v →
      b.expt (.ofInt 0) = .ok (.ofInt 1) ∧
      ∀ n : ℕ, 0 < n →
        ∃ c, b.expt (.ofInt n) = .ok c ∧ c.isExact = false ∧ c.value? = some (v ^ n) := by
  refine ⟨fun b hexact hcollapsed => ?_, fun b v hinexact hvalue => ⟨?_, fun n hn => ?_⟩⟩
  · obtain ⟨b, rfl⟩ : ∃ a : ExactNumber, a.1 = b := ⟨⟨b, hexact, hcollapsed⟩, rfl⟩
    refine ⟨fun n => ?_, fun hne => ?_⟩
    · rw [expt_ofInt, intPow_natCast, ExactNumber.mulPow_val, ExactNumber.val_pow]
    · have hb : b ≠ 0 := by
        rintro rfl
        exact hne ExactNumber.val_zero
      refine ⟨⟨b⁻¹.1, ExactNumber.invert_val hb, ?_, fun n hn => ?_⟩, fun m n => ?_⟩
      · rw [← ExactNumber.val_mul, mul_inv_cancel₀ hb, ExactNumber.val_one]
      · rw [ExactNumber.expt_val hb, zpow_neg, zpow_natCast, ← inv_pow, ExactNumber.val_pow]
      · refine ⟨_, _, ExactNumber.expt_val hb m, ExactNumber.expt_val hb n, ?_⟩
        rw [ExactNumber.expt_val hb, zpow_add₀ hb, ExactNumber.val_mul]
  · rw [expt_ofInt, ← Nat.cast_zero, intPow_natCast, mulPow_zero]
  · refine ⟨_, by rw [expt_ofInt, intPow_natCast], ?_, ?_⟩
    · have hnat := isExact_mulPow (.ofInt 1) b n
      rw [hinexact, Bool.toNat_false, Nat.zero_pow hn, Nat.mul_zero] at hnat
      exact Bool.toNat_eq_zero.mp hnat
    · rw [value?_mulPow value?_one hvalue, one_mul]

/-- The powers of `1+i` are complex and real in turn. -/
theorem powers_are_repeated_products_unit :
    let b : Number := .complex (.exact 1) (.exact 1)
    let z : Number := .complex (.exact 1) (.inexact 1)
    let v : GaussianRational := ⟨1, 1⟩
    b.isExact = true ∧ b.Collapsed ∧ b ≠ .ofInt 0 ∧ b.repeated 8 = .ofInt 16 ∧
      b.expt (.ofInt 8) = .ok (.ofInt 16) ∧
      (∃ c, b.mul c = .ofInt 1 ∧ b.expt (.ofInt (-3)) = .ok (c.repeated 3)) ∧
      (∃ x y, b.expt (.ofInt 5) = .ok x ∧ b.expt (.ofInt (-3)) = .ok y ∧
        b.expt (.ofInt 2) = .ok (x.mul y)) ∧
      z.isExact = false ∧ z.value? = some v ∧
      ∃ c, z.expt (.ofInt 2) = .ok c ∧ c.isExact = false ∧ c.value? = some (v ^ 2) := by
  intro b z v
  have hne : b ≠ .ofInt 0 := by decide +kernel
  have hpower : b.repeated 8 = .ofInt 16 := by decide +kernel
  obtain ⟨hexact, hinexact⟩ := powers_are_repeated_products
  obtain ⟨hnat, hnonzero⟩ := hexact b rfl rfl
  obtain ⟨⟨c, -, hinverse, hnegative⟩, hsum⟩ := hnonzero hne
  exact ⟨rfl, rfl, hne, hpower, hpower ▸ hnat 8, ⟨c, hinverse, hnegative 3 (by decide)⟩,
    hsum 5 (-3), rfl, rfl, (hinexact z v rfl rfl).2 2 (by decide)⟩

end Number

end BeginningStudent
