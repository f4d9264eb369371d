import BeginningStudent.Proofs.FloatOrder
import Mathlib.Algebra.Order.Field.Basic
import Mathlib.Algebra.Ring.Parity
import Mathlib.Tactic.NormNum

/-!
# The nearest float

`Binary64.ofRat` gives the float nearest to a rational, and the one with an even significand when
two are equally near. An infinity counts here as the power of two behind the greatest float, so that
a rational becomes infinite as soon as it would be rounded to that. No float but the one that is
given satisfies this condition, up to the sign of a zero (`Binary64.nearest_iff`). Rounding keeps
the order of rationals (`Binary64.place_ofRat_mono`) and their order with all floats but the nearest
(`Binary64.lt_endedValue`, `Binary64.endedValue_lt`).
-/

namespace BeginningStudent.Binary64

/-! ### Rounding to an integer -/

theorem roundDiv_error (n : ℕ) {d : ℕ} (hd : 0 < d) :
    |(roundDiv n d : ℚ) - n / d| ≤ 1 / 2 ∧
      (|(roundDiv n d : ℚ) - n / d| = 1 / 2 → Even (roundDiv n d)) := by
  have hd' : (0 : ℚ) < d := by exact_mod_cast hd
  have hsplit : (n : ℚ) / d = (n / d : ℕ) + (n % d : ℕ) / d := by
    have hdivision : (d : ℚ) * (n / d : ℕ) + (n % d : ℕ) = n := by
      exact_mod_cast Nat.div_add_mod n d
    rw [div_eq_iff hd'.ne', add_mul, div_mul_cancel₀ _ hd'.ne']
    linarith
  have hpart : (0 : ℚ) ≤ (n % d : ℕ) / d := by positivity
  rw [hsplit]
  simp only [roundDiv]
  split_ifs with hless hmore
  · have hhalf : ((n % d : ℕ) : ℚ) / d < 1 / 2 := by
      rw [div_lt_div_iff₀ hd' two_pos]
      exact_mod_cast (by omega : n % d * 2 < 1 * d)
    rw [abs_of_nonpos (by linarith)]
    exact ⟨by linarith, fun h => absurd h (by linarith)⟩
  · have hhalf : 1 / 2 < ((n % d : ℕ) : ℚ) / d := by
      rw [div_lt_div_iff₀ two_pos hd']
      exact_mod_cast (by omega : 1 * d < n % d * 2)
    have hone : ((n % d : ℕ) : ℚ) / d < 1 := by
      rw [div_lt_one hd']
      exact_mod_cast Nat.mod_lt n hd
    push_cast
    rw [abs_of_nonneg (by linarith)]
    exact ⟨by linarith, fun h => absurd h (by linarith)⟩
  · have hhalf : ((n % d : ℕ) : ℚ) / d = 1 / 2 := by
      rw [div_eq_div_iff hd'.ne' two_ne_zero]
      exact_mod_cast (by omega : n % d * 2 = 1 * d)
    rw [hhalf]
    refine ⟨?_, fun _ => by rw [Nat.even_iff]; omega⟩
    rcases Nat.mod_two_eq_zero_or_one (n / d) with heven | hodd
    · simp [heven]
    · rw [hodd, abs_le]
      push_cast
      constructor <;> linarith

theorem nearest_integer {s : ℕ} {t : ℚ} (hs : |(s : ℚ) - t| ≤ 1 / 2)
    (heven : |(s : ℚ) - t| = 1 / 2 → Even s) (i : ℕ) :
    |(s : ℚ) - t| ≤ |(i : ℚ) - t| ∧ (|(s : ℚ) - t| = |(i : ℚ) - t| → i = s ∨ Even s) := by
  rcases eq_or_ne i s with rfl | hne
  · exact ⟨le_rfl, fun _ => .inl rfl⟩
  have hone : (1 : ℚ) ≤ |(i : ℚ) - s| := by
    have hint : (1 : ℤ) ≤ |(i : ℤ) - s| := Int.one_le_abs (by omega)
    exact_mod_cast hint
  have htriangle : |(i : ℚ) - s| ≤ |(i : ℚ) - t| + |(s : ℚ) - t| := by
    rw [abs_sub_comm (s : ℚ) t]
    exact abs_sub_le _ _ _
  refine ⟨by linarith, fun h => .inr (heven (by linarith))⟩

/-! ### Scaling -/

theorem shiftRatio (n d : ℕ) (e : ℤ) :
    ((n <<< (-e).toNat : ℕ) : ℚ) / (d <<< e.toNat : ℕ) = n / d / 2 ^ e := by
  obtain ⟨k, rfl | rfl⟩ := e.eq_nat_or_neg
  · simp [Nat.shiftLeft_eq, div_div]
  · simp [Nat.shiftLeft_eq, div_eq_mul_inv, mul_right_comm]

theorem log2_bounds {n : ℕ} (hn : 0 < n) :
    (2 : ℚ) ^ (n.log2 : ℤ) ≤ n ∧ (n : ℚ) < 2 ^ ((n.log2 : ℤ) + 1) := by
  constructor
  · rw [zpow_natCast]
    exact_mod_cast Nat.log2_self_le hn.ne'
  · have h := Nat.lt_log2_self (n := n)
    exact_mod_cast h

theorem ratioLog2_bounds {n d : ℕ} (hn : 0 < n) (hd : 0 < d) :
    (2 : ℚ) ^ ratioLog2 n d ≤ n / d ∧ (n : ℚ) / d < 2 ^ (ratioLog2 n d + 1) := by
  have hd' : (0 : ℚ) < d := by exact_mod_cast hd
  obtain ⟨hnlow, hnhigh⟩ := log2_bounds hn
  obtain ⟨hdlow, hdhigh⟩ := log2_bounds hd
  have htwo : (2 : ℚ) ≠ 0 := two_ne_zero
  have hshift : d <<< ((n.log2 : ℤ) - d.log2).toNat ≤ n <<< (-((n.log2 : ℤ) - d.log2)).toNat ↔
      (2 : ℚ) ^ ((n.log2 : ℤ) - d.log2) ≤ n / d := by
    have hpos : (0 : ℚ) < (d <<< ((n.log2 : ℤ) - d.log2).toNat : ℕ) := by
      rw [Nat.shiftLeft_eq]
      positivity
    rw [← Nat.cast_le (α := ℚ), ← one_le_div hpos, shiftRatio, one_le_div (zpow_pos two_pos _)]
  have hupper : (n : ℚ) / d < 2 ^ ((n.log2 : ℤ) - d.log2 + 1) := by
    rw [div_lt_iff₀ hd']
    calc (n : ℚ) < 2 ^ ((n.log2 : ℤ) + 1) := hnhigh
      _ = 2 ^ ((n.log2 : ℤ) - d.log2 + 1) * 2 ^ (d.log2 : ℤ) := by
        rw [← zpow_add₀ htwo]
        congr 1
        ring
      _ ≤ 2 ^ ((n.log2 : ℤ) - d.log2 + 1) * d :=
        mul_le_mul_of_nonneg_left hdlow (zpow_nonneg two_pos.le _)
  have hlower : (2 : ℚ) ^ ((n.log2 : ℤ) - d.log2 - 1) ≤ n / d := by
    rw [le_div_iff₀ hd']
    calc (2 : ℚ) ^ ((n.log2 : ℤ) - d.log2 - 1) * d
        ≤ 2 ^ ((n.log2 : ℤ) - d.log2 - 1) * 2 ^ ((d.log2 : ℤ) + 1) :=
          mul_le_mul_of_nonneg_left hdhigh.le (zpow_nonneg two_pos.le _)
      _ = 2 ^ (n.log2 : ℤ) := by
        rw [← zpow_add₀ htwo]
        congr 1
        ring
      _ ≤ n := hnlow
  simp only [ratioLog2]
  split
  · exact ⟨hshift.mp ‹_›, hupper⟩
  · have hless := not_le.mp (hshift.not.mp ‹_›)
    exact ⟨hlower, by simpa using hless⟩

/-! ### Rounding to the grid -/

/-- The number is that of a value nearest to the rational, an even number if another value is
equally near. -/
def NearestGrid (q : ℚ) (k : ℕ) : Prop :=
  ∀ j : ℕ, |gridValue k - q| ≤ |gridValue j - q| ∧
    (|gridValue k - q| = |gridValue j - q| → j = k ∨ Even k)

theorem nearestGrid_self (n : ℕ) : NearestGrid (gridValue n) n := by
  intro j
  rw [sub_self, abs_zero]
  refine ⟨abs_nonneg _, fun h => .inl ?_⟩
  rw [eq_comm, abs_eq_zero, sub_eq_zero] at h
  exact gridValue_strictMono.injective h

theorem nearestGrid_zero : NearestGrid 0 0 := by
  have hself := nearestGrid_self 0
  rwa [gridValue_zero] at hself

section
variable {q : ℚ} {e : ℤ} {s : ℕ}

theorem significand_range (hq : q < 2 * leadingBit * 2 ^ e)
    (hlow : leadingBit * 2 ^ e ≤ q ∨ e = -1074) (hs : |(s : ℚ) - q / 2 ^ e| ≤ 1 / 2) :
    s ≤ 2 * leadingBit ∧ (leadingBit ≤ s ∨ e = -1074) := by
  have hunit : (0 : ℚ) < 2 ^ e := zpow_pos two_pos e
  have hbounds := abs_le.mp hs
  constructor
  · have hlt : q / 2 ^ e < 2 * leadingBit := (div_lt_iff₀ hunit).mpr hq
    have : (s : ℚ) < 2 * leadingBit + 1 := by linarith
    exact Nat.lt_succ_iff.mp (by exact_mod_cast this)
  · refine hlow.imp_left fun h => ?_
    have hle : (leadingBit : ℚ) ≤ q / 2 ^ e := (le_div_iff₀ hunit).mpr h
    have : (leadingBit : ℚ) < s + 1 := by linarith
    exact Nat.lt_succ_iff.mp (by exact_mod_cast this)

/-- Values in the range of an exponent are integers in units of the last place, so that rounding the
significand gives the nearest of them. -/
theorem nearest_in_range (he : -1074 ≤ e) (hhigh : s ≤ 2 * leadingBit)
    (hleast : leadingBit ≤ s ∨ e = -1074) (hs : |(s : ℚ) - q / 2 ^ e| ≤ 1 / 2)
    (heven : |(s : ℚ) - q / 2 ^ e| = 1 / 2 → Even s) (i : ℕ) (hi : i ≤ 2 * leadingBit)
    (hi' : leadingBit ≤ i ∨ e = -1074) :
    |gridValue ((e + 1074).toNat * leadingBit + s) - q| ≤
        |gridValue ((e + 1074).toNat * leadingBit + i) - q| ∧
      (|gridValue ((e + 1074).toNat * leadingBit + s) - q| =
        |gridValue ((e + 1074).toNat * leadingBit + i) - q| → i = s ∨ Even s) := by
  have hunit : (0 : ℚ) < 2 ^ e := zpow_pos two_pos e
  have hscale (i : ℕ) : |(i : ℚ) * 2 ^ e - q| = |(i : ℚ) - q / 2 ^ e| * 2 ^ e := by
    rw [← abs_of_pos hunit, ← abs_mul, abs_of_pos hunit, sub_mul, div_mul_cancel₀ _ hunit.ne']
  obtain ⟨hle, htie⟩ := nearest_integer hs heven i
  rw [gridValue_at he hhigh hleast, gridValue_at he hi hi', hscale, hscale]
  exact ⟨mul_le_mul_of_nonneg_right hle hunit.le, fun h => htie (mul_right_cancel₀ hunit.ne' h)⟩

theorem nearestGrid_at (he : -1074 ≤ e) (hq : q < 2 * leadingBit * 2 ^ e)
    (hlow : leadingBit * 2 ^ e ≤ q ∨ e = -1074) (hs : |(s : ℚ) - q / 2 ^ e| ≤ 1 / 2)
    (heven : |(s : ℚ) - q / 2 ^ e| = 1 / 2 → Even s) :
    NearestGrid q ((e + 1074).toNat * leadingBit + s) := by
  obtain ⟨hhigh, hleast⟩ := significand_range hq hlow hs
  have hin := nearest_in_range he hhigh hleast hs heven
  have hparity : Even s → Even ((e + 1074).toNat * leadingBit + s) := by
    intro h
    exact ((by decide : Even leadingBit).mul_left _).add h
  intro j
  rcases lt_or_ge ((e + 1074).toNat * leadingBit + 2 * leadingBit) j with hj | hj
  · -- A value above the range is farther away than the end of the range.
    have hlt := gridValue_strictMono hj
    have hend := (hin (2 * leadingBit) le_rfl (.inl (by omega))).1
    rw [gridValue_at he le_rfl (.inl (by omega))] at hlt hend
    push_cast at hlt hend
    rw [abs_of_pos (a := 2 * (leadingBit : ℚ) * 2 ^ e - q) (by linarith)] at hend
    rw [abs_of_pos (a := gridValue j - q) (by linarith)]
    exact ⟨by linarith, fun h => absurd h (by linarith)⟩
  by_cases hj' : (e + 1074).toNat * leadingBit + leadingBit ≤ j ∨ e = -1074
  · obtain ⟨i, rfl⟩ : ∃ i, j = (e + 1074).toNat * leadingBit + i := by
      refine ⟨j - (e + 1074).toNat * leadingBit, ?_⟩
      rcases hj' with h | rfl
      · omega
      · simp
    obtain ⟨hle, htie⟩ := hin i (by omega) (hj'.imp_left (by omega))
    exact ⟨hle, fun h => (htie h).imp (congrArg _) hparity⟩
  · -- So is a value below the range.
    rw [not_or, not_le] at hj'
    have hq' := hlow.resolve_right hj'.2
    have hlt := gridValue_strictMono hj'.1
    have hend := (hin leadingBit (by omega) (.inl le_rfl)).1
    rw [gridValue_at he (by omega) (.inl le_rfl)] at hlt hend
    rw [abs_of_nonpos (a := (leadingBit : ℚ) * 2 ^ e - q) (by linarith)] at hend
    rw [abs_of_nonpos (a := gridValue j - q) (by linarith)]
    exact ⟨by linarith, fun h => absurd h (by linarith)⟩

end

/-- The bits of the nearest float are the number of a nearest value, cut off at infinity. -/
theorem nearestBits_spec (n : ℕ) {d : ℕ} (hd : 0 < d) :
    ∃ k, NearestGrid (n / d) k ∧ nearestBits n d = min k (2047 * leadingBit) := by
  rcases Nat.eq_zero_or_pos n with rfl | hn
  · exact ⟨0, by simpa using nearestGrid_zero, by simp [nearestBits]⟩
  set e := max (ratioLog2 n d - 52) (-1074) with he
  obtain ⟨hlow, hhigh⟩ := ratioLog2_bounds hn hd
  have hbit : (leadingBit : ℚ) = 2 ^ (52 : ℤ) := by norm_num [leadingBit]
  have hd' : 0 < d <<< e.toNat := by
    rw [Nat.shiftLeft_eq]
    positivity
  obtain ⟨herror, heven⟩ := roundDiv_error (n <<< (-e).toNat) hd'
  rw [shiftRatio] at herror heven
  refine ⟨_, nearestGrid_at (le_max_right _ _) ?_ ?_ herror heven, ?_⟩
  · calc (n : ℚ) / d < 2 ^ (ratioLog2 n d + 1) := hhigh
      _ ≤ 2 ^ (1 + 52 + e) := zpow_le_zpow_right₀ one_le_two (by omega)
      _ = 2 * leadingBit * 2 ^ e := by
        rw [zpow_add₀ two_ne_zero, zpow_add₀ two_ne_zero, zpow_one, hbit]
  · rcases le_or_gt (-1074) (ratioLog2 n d - 52) with h | h
    · refine .inl ?_
      calc (leadingBit : ℚ) * 2 ^ e = 2 ^ (52 + e) := by rw [zpow_add₀ two_ne_zero, hbit]
        _ ≤ 2 ^ ratioLog2 n d := zpow_le_zpow_right₀ one_le_two (by omega)
        _ ≤ n / d := hlow
    · exact .inr (by omega)
  · simp only [nearestBits, if_neg hn.ne', ← he]

/-! ### Rounding to a float -/

/-- The place is that of a float nearest to the rational, an even place if another is as near. -/
def NearestPlace (q : ℚ) (p : ℤ) : Prop :=
  ∀ j, -topPlace ≤ j → j ≤ topPlace → |placeValue p - q| ≤ |placeValue j - q| ∧
    (|placeValue p - q| = |placeValue j - q| → j = p ∨ Even p)

theorem topPlace_eq : topPlace = (2047 * leadingBit : ℕ) := rfl

theorem even_topPlace : Even (2047 * leadingBit) := by decide

theorem NearestGrid.nearestPlace {q : ℚ} (hq : 0 ≤ q) {k : ℕ} (h : NearestGrid q k) :
    NearestPlace q (min k (2047 * leadingBit) : ℕ) := by
  intro j hj hj'
  rw [topPlace_eq] at hj hj'
  rw [placeValue_natCast]
  rcases le_or_gt k (2047 * leadingBit) with hk | hk
  · rw [min_eq_left hk]
    rcases lt_or_ge j 0 with hneg | hpos
    · -- Zero is nearer than all negative places.
      have hlt := placeValue_strictMono hneg
      have hzero := (h 0).1
      simp only [placeValue_zero, gridValue_zero, zero_sub, abs_neg, abs_of_nonneg hq] at hlt hzero
      rw [abs_of_neg (a := placeValue j - q) (by linarith)]
      exact ⟨by linarith, fun heq => absurd heq (by linarith)⟩
    · obtain ⟨i, rfl⟩ := Int.eq_ofNat_of_zero_le hpos
      obtain ⟨hle, htie⟩ := h i
      rw [placeValue_natCast]
      exact ⟨hle, fun heq => (htie heq).imp (congrArg _) (by exact_mod_cast ·)⟩
  · rw [min_eq_right hk.le]
    have hlt := gridValue_strictMono hk
    -- The rational is above the value of the infinity, as it is nearer to a greater one.
    have hbeyond : gridValue (2047 * leadingBit) < q := by
      by_contra hle
      have hnear := (h (2047 * leadingBit)).1
      rw [abs_of_nonneg (by linarith), abs_of_nonneg (by linarith)] at hnear
      linarith
    have hle := placeValue_strictMono.monotone hj'
    rw [placeValue_natCast] at hle
    rw [abs_of_neg (a := gridValue _ - q) (by linarith),
      abs_of_neg (a := placeValue j - q) (by linarith)]
    exact ⟨by linarith, fun _ => .inr (by exact_mod_cast even_topPlace)⟩

theorem NearestPlace.neg {q : ℚ} {p : ℤ} (h : NearestPlace q p) : NearestPlace (-q) (-p) := by
  intro j hj hj'
  have hdist (i : ℤ) : |placeValue i - -q| = |placeValue (-i) - q| := by
    rw [placeValue_neg, ← abs_neg]
    congr 1
    ring
  obtain ⟨hle, htie⟩ := h (-j) (by omega) (by omega)
  rw [hdist, hdist, neg_neg]
  exact ⟨hle, fun heq => (htie heq).imp (by omega) Even.neg⟩

theorem toNat_bits_ofSignBits {n : ℕ} (hn : n < signWeight) (negative : Bool) :
    (ofSignBits negative n).bits.toNat = if negative then signWeight + n else n := by
  unfold ofSignBits signWeight leadingBit at *
  cases negative <;> simp <;> omega

theorem place_ofSignBits {n : ℕ} (hn : n ≤ 2047 * leadingBit) (negative : Bool) :
    (ofSignBits negative n).isNaN = false ∧
      (ofSignBits negative n).place = if negative then -(n : ℤ) else n := by
  have hbits := toNat_bits_ofSignBits (n := n) (hn.trans_lt (by decide)) negative
  constructor
  · rw [isNaN, decide_eq_false_iff_not, exponentField, fraction, hbits]
    unfold signWeight leadingBit at *
    split_ifs <;> omega
  · rw [place, signBit, magnitude, hbits]
    unfold signWeight leadingBit at *
    cases negative <;> simp <;> omega

theorem isNaN_ofRat (q : ℚ) : (ofRat q).isNaN = false := by
  obtain ⟨k, -, hk⟩ := nearestBits_spec q.num.natAbs q.den_pos
  exact (place_ofSignBits (hk ▸ min_le_right _ _) _).1

theorem nearestPlace_ofRat (q : ℚ) : NearestPlace q (ofRat q).place := by
  obtain ⟨k, hnear, hk⟩ := nearestBits_spec q.num.natAbs q.den_pos
  have hplace := (place_ofSignBits (hk ▸ min_le_right _ _) (decide (q < 0))).2
  have habs : (q.num.natAbs : ℚ) / q.den = |q| := by
    rw [Nat.cast_natAbs, Int.cast_abs]
    conv_rhs => rw [← Rat.num_div_den q, abs_div, Nat.abs_cast]
  rw [habs] at hnear
  have hpositive := hnear.nearestPlace (abs_nonneg q)
  rw [ofRat, hplace, hk]
  rcases lt_or_ge q 0 with hq | hq
  · rw [abs_of_neg hq] at hpositive
    simpa [hq] using hpositive.neg
  · rw [abs_of_nonneg hq] at hpositive
    simpa [not_lt.mpr hq] using hpositive

/-! ### Order and uniqueness -/

theorem NearestPlace.le {q : ℚ} {p j : ℤ} (h : NearestPlace q p) (hj : -topPlace ≤ j)
    (hj' : j ≤ topPlace) (hle : placeValue j ≤ q) : j ≤ p := by
  by_contra hlt
  have hvalue := placeValue_strictMono (not_le.mp hlt)
  have hnear := (h j hj hj').1
  rw [abs_of_nonpos (by linarith), abs_of_nonpos (by linarith)] at hnear
  linarith

theorem NearestPlace.ge {q : ℚ} {p j : ℤ} (h : NearestPlace q p) (hj : -topPlace ≤ j)
    (hj' : j ≤ topPlace) (hle : q ≤ placeValue j) : p ≤ j := by
  have hneg := h.neg.le (j := -j) (by omega) (by omega) (by rw [placeValue_neg]; linarith)
  omega

theorem NearestPlace.unique {q : ℚ} {p p' : ℤ} (h : NearestPlace q p) (h' : NearestPlace q p')
    (hp : -topPlace ≤ p) (hp' : p' ≤ topPlace) : p' ≤ p := by
  by_contra hlt
  rw [not_le] at hlt
  obtain ⟨hle, htie⟩ := h p' (by omega) hp'
  obtain ⟨hle', htie'⟩ := h' p hp (by omega)
  have hequal := le_antisymm hle hle'
  -- Two places that are equally near are both even, so there is another between them.
  have heven := (htie hequal).resolve_left (by omega)
  have heven' := (htie' hequal.symm).resolve_left (by omega)
  have hnext : p + 1 < p' := by
    rcases heven with ⟨a, rfl⟩
    rcases heven' with ⟨b, rfl⟩
    omega
  have hlow := placeValue_strictMono (lt_add_one p)
  have hhigh := placeValue_strictMono hnext
  have hnear := (h (p + 1) (by omega) (by omega)).1
  have hsides : placeValue p ≤ q ∧ q ≤ placeValue p' := by
    rcases abs_cases (placeValue p - q) with h₁ | h₁ <;>
      rcases abs_cases (placeValue p' - q) with h₂ | h₂ <;> constructor <;> linarith
  rw [abs_of_nonpos (by linarith [hsides.1]), abs_of_nonneg (by linarith [hsides.2])] at hequal
  rw [abs_of_nonpos (by linarith [hsides.1])] at hnear
  rcases abs_cases (placeValue (p + 1) - q) with h₃ | h₃ <;> linarith

variable {x y : Binary64} {q : ℚ}

/-- The value of a float that is not NaN, where an infinity counts as the power of two behind the
greatest float. -/
def reach (x : Binary64) : ℚ :=
  match x.toRat? with
  | some q => q
  | none => if x.signBit then -2 ^ 1024 else 2 ^ 1024

/-- The float is nearest to the rational, and has an even significand if another float is equally
near. -/
def Nearest (x : Binary64) (q : ℚ) : Prop :=
  x.isNaN = false ∧ ∀ y : Binary64, y.isNaN = false → |x.reach - q| ≤ |y.reach - q| ∧
    (|x.reach - q| = |y.reach - q| → y.reach = x.reach ∨ Even x.significand)

theorem placeValue_topPlace : placeValue topPlace = 2 ^ 1024 := by
  have htop : 2047 * leadingBit = ((971 : ℤ) + 1074).toNat * leadingBit + 2 * leadingBit := by decide
  have hbit : ((2 * leadingBit : ℕ) : ℚ) = 2 ^ 53 := by
    unfold leadingBit
    norm_num
  rw [topPlace_eq, placeValue_natCast, htop, gridValue_at (by norm_num) le_rfl (.inl (by omega)),
    hbit, show (971 : ℤ) = (971 : ℕ) by rfl, zpow_natCast, ← pow_add]

theorem reach_eq (hx : x.isNaN = false) : x.reach = placeValue x.place := by
  unfold reach
  rw [toRat?_eq]
  cases hf : x.isFinite with
  | true => rfl
  | false =>
    rcases place_of_infinite hx hf with ⟨hsign, hplace⟩ | ⟨hsign, hplace⟩
    · simp [hsign, hplace, placeValue_neg, placeValue_topPlace]
    · simp [hsign, hplace, placeValue_topPlace]

theorem even_gridSignificand (n : ℕ) : Even (gridSignificand n) ↔ Even n := by
  rw [Nat.even_iff, Nat.even_iff]
  unfold gridSignificand leadingBit
  split_ifs <;> omega

theorem even_significand : Even x.significand ↔ Even x.place := by
  rw [significand_eq, even_gridSignificand, place]
  split_ifs
  · rw [even_neg, Int.even_coe_nat]
  · rw [Int.even_coe_nat]

theorem exists_place {p : ℤ} (hp : -topPlace ≤ p) (hp' : p ≤ topPlace) :
    ∃ x : Binary64, x.isNaN = false ∧ x.place = p := by
  have hbound : p.natAbs ≤ 2047 * leadingBit := by
    rw [topPlace_eq] at hp hp'
    omega
  obtain ⟨hnan, hplace⟩ := place_ofSignBits hbound (decide (p < 0))
  refine ⟨_, hnan, hplace.trans ?_⟩
  split_ifs with h <;> rw [decide_eq_true_iff] at h <;> omega

theorem nearest_iff_place : x.Nearest q ↔ x.isNaN = false ∧ NearestPlace q x.place := by
  refine and_congr_right fun hx => ?_
  rw [reach_eq hx, even_significand]
  constructor
  · intro h j hj hj'
    obtain ⟨y, hy, rfl⟩ := exists_place hj hj'
    have hnear := h y hy
    rw [reach_eq hy, placeValue_strictMono.injective.eq_iff] at hnear
    exact hnear
  · intro h y hy
    rw [reach_eq hy, placeValue_strictMono.injective.eq_iff]
    exact h y.place (place_bounds hy).1 (place_bounds hy).2

/-- The nearest float is the one that rounding gives, or the other zero. -/
theorem nearest_iff : x.Nearest q ↔ x.isNaN = false ∧ x.place = (ofRat q).place := by
  rw [nearest_iff_place]
  refine and_congr_right fun hx => ?_
  obtain ⟨hlow, hhigh⟩ := place_bounds hx
  obtain ⟨hlow', hhigh'⟩ := place_bounds (isNaN_ofRat q)
  constructor
  · intro h
    exact le_antisymm ((nearestPlace_ofRat q).unique h hlow' hhigh)
      (h.unique (nearestPlace_ofRat q) hlow hhigh')
  · intro h
    rw [h]
    exact nearestPlace_ofRat q

/-! ### Rounding and order -/

theorem place_ofRat_mono {p : ℚ} (h : p ≤ q) : (ofRat p).place ≤ (ofRat q).place := by
  by_contra hlt
  have hvalue := placeValue_strictMono (not_le.mp hlt)
  obtain ⟨hlow, hhigh⟩ := place_bounds (isNaN_ofRat p)
  obtain ⟨hlow', hhigh'⟩ := place_bounds (isNaN_ofRat q)
  have hp := (nearestPlace_ofRat p _ hlow' hhigh').1
  have hq := (nearestPlace_ofRat q _ hlow hhigh).1
  -- `p` is not below the middle of the two values and `q` is not above it.
  have hmiddle : p = q := by
    rcases abs_cases (placeValue (ofRat p).place - p) with h₁ | h₁ <;>
      rcases abs_cases (placeValue (ofRat q).place - p) with h₂ | h₂ <;>
      rcases abs_cases (placeValue (ofRat q).place - q) with h₃ | h₃ <;>
      rcases abs_cases (placeValue (ofRat p).place - q) with h₄ | h₄ <;> linarith
  exact hlt (hmiddle ▸ le_rfl)

theorem lt_endedValue (hx : x.isNaN = false) (h : (ofRat q).place < x.place) :
    rationalValue q < endedValue x.place := by
  obtain ⟨hlow, hhigh⟩ := place_bounds hx
  obtain ⟨hlow', -⟩ := place_bounds (isNaN_ofRat q)
  rw [endedValue, if_neg (by omega)]
  split_ifs with htop
  · exact rationalValue_lt_top q
  · refine rationalValue_strictMono (not_le.mp fun hle => ?_)
    exact absurd ((nearestPlace_ofRat q).le hlow hhigh hle) (by omega)

theorem endedValue_lt (hx : x.isNaN = false) (h : x.place < (ofRat q).place) :
    endedValue x.place < rationalValue q := by
  obtain ⟨hlow, hhigh⟩ := place_bounds hx
  obtain ⟨-, hhigh'⟩ := place_bounds (isNaN_ofRat q)
  rw [endedValue]
  split_ifs with hbottom htop
  · exact bot_lt_rationalValue q
  · omega
  · refine rationalValue_strictMono (not_le.mp fun hle => ?_)
    exact absurd ((nearestPlace_ofRat q).ge hlow hhigh hle) (by omega)

end BeginningStudent.Binary64
