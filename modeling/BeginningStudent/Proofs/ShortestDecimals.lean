import BeginningStudent.Numeric.Decimal
import BeginningStudent.Proofs.NearestFloat

/-!
# Shortest decimals

The decimal that is printed for a float lies in the rounding interval of the float
(`Decimal.shortest_contains`): the interval is wide enough for one of seventeen digits, and a shorter
one is taken only from the interval. Every number of the interval is rounded to the float
(`Decimal.ofRat_of_contains`).
-/

namespace BeginningStudent.Decimal

open Binary64

/-! ### Decimals in an interval -/

theorem scale_split (d : ℕ) (k : ℤ) :
    ((d * Nat.pow 10 k.toNat : ℕ) : ℚ) = d * 10 ^ k * (Nat.pow 10 (-k).toNat : ℕ) := by
  obtain ⟨n, rfl | rfl⟩ := k.eq_nat_or_neg
  · simp
  · simp

theorem multiple_le_iff {d : ℕ} (hd : 0 < d) (n c : ℕ) (k : ℤ) :
    (c * (d * Nat.pow 10 k.toNat) ≤ n * Nat.pow 10 (-k).toNat ↔
      (c : ℚ) * 10 ^ k ≤ (n : ℚ) / d) ∧
    (n * Nat.pow 10 (-k).toNat ≤ c * (d * Nat.pow 10 k.toNat) ↔
      (n : ℚ) / d ≤ (c : ℚ) * 10 ^ k) := by
  have hd' : (0 : ℚ) < d := by exact_mod_cast hd
  have hb : (0 : ℚ) < (Nat.pow 10 (-k).toNat : ℕ) := by
    exact_mod_cast Nat.pow_pos (by decide : 0 < 10)
  have hmultiple : ((c * (d * Nat.pow 10 k.toNat) : ℕ) : ℚ) =
      (c : ℚ) * 10 ^ k * d * (Nat.pow 10 (-k).toNat : ℕ) := by
    rw [Nat.cast_mul, scale_split]
    ring
  rw [← Nat.cast_le (α := ℚ), ← Nat.cast_le (α := ℚ), hmultiple, Nat.cast_mul n]
  rw [mul_le_mul_iff_left₀ hb, mul_le_mul_iff_left₀ hb, le_div_iff₀ hd', div_le_iff₀ hd']
  exact ⟨Iff.rfl, Iff.rfl⟩

namespace Interval

variable {i : Interval} {k : ℤ} {c : ℕ} {q : ℚ}

/-- The rational lies in the interval. -/
def Contains (i : Interval) (q : ℚ) : Prop :=
  if i.closed then (i.low : ℚ) / i.den ≤ q ∧ q ≤ (i.high : ℚ) / i.den
  else (i.low : ℚ) / i.den < q ∧ q < (i.high : ℚ) / i.den

structure Proper (i : Interval) : Prop where
  den_pos : 0 < i.den
  low_lt : i.low < i.value
  lt_high : i.value < i.high

theorem Proper.bounds (hi : i.Proper) :
    (i.low : ℚ) / i.den < i.value / i.den ∧ (i.value : ℚ) / i.den < i.high / i.den := by
  have hd : (0 : ℚ) < i.den := by exact_mod_cast hi.den_pos
  rw [div_lt_div_iff_of_pos_right hd, div_lt_div_iff_of_pos_right hd]
  exact_mod_cast And.intro hi.low_lt hi.lt_high

theorem Proper.contains_value (hi : i.Proper) : i.Contains (i.value / i.den) := by
  obtain ⟨hlow, hhigh⟩ := hi.bounds
  unfold Contains
  split
  · exact ⟨hlow.le, hhigh.le⟩
  · exact ⟨hlow, hhigh⟩

/-- The search on one power of ten: it finds one of the neighbours of the value if one of them is
inside. -/
theorem nearest?_cases (hd : 0 < i.den) (k : ℤ) :
    ∃ c : ℕ, (c : ℚ) * 10 ^ k ≤ (i.value : ℚ) / i.den ∧
      (i.value : ℚ) / i.den < (c + 1 : ℕ) * 10 ^ k ∧
      ((∃ n : ℕ, i.nearest? k = some n ∧ i.Contains (n * 10 ^ k)) ∨
        i.nearest? k = none ∧ ¬i.Contains (c * 10 ^ k) ∧ ¬i.Contains ((c + 1 : ℕ) * 10 ^ k)) := by
  have ha : 0 < i.den * Nat.pow 10 k.toNat := Nat.mul_pos hd (Nat.pow_pos (by decide))
  unfold nearest?
  extract_lets a b inside c upper
  have hinside (n : ℕ) : inside n = true ↔ i.Contains (n * 10 ^ k) := by
    obtain ⟨hlow, hlow'⟩ := multiple_le_iff hd i.low n k
    obtain ⟨hhigh, hhigh'⟩ := multiple_le_iff hd i.high n k
    unfold Contains
    show (if i.closed then _ else _) = true ↔ _
    split
    · rw [Bool.and_eq_true, decide_eq_true_eq, decide_eq_true_eq, hlow', hhigh]
    · rw [Bool.and_eq_true, decide_eq_true_eq, decide_eq_true_eq, ← not_le, ← not_le, hlow, hhigh',
        not_le, not_le]
  refine ⟨c, (multiple_le_iff hd i.value c k).1.mp (Nat.div_mul_le_self _ _), ?_, ?_⟩
  · rw [← not_le, ← (multiple_le_iff hd i.value (c + 1) k).1, not_le]
    exact Nat.lt_mul_of_div_lt (Nat.lt_succ_self c) ha
  · rw [← hinside c, ← hinside (c + 1)]
    cases hc : inside c <;> cases hc' : inside (c + 1)
    · exact .inr ⟨rfl, Bool.false_ne_true, Bool.false_ne_true⟩
    · exact .inl ⟨c + 1, rfl, (hinside _).mp hc'⟩
    · exact .inl ⟨c, rfl, (hinside _).mp hc⟩
    · refine .inl ⟨if upper then c + 1 else c, rfl, ?_⟩
      split
      · exact (hinside _).mp hc'
      · exact (hinside _).mp hc

theorem nearest?_contains (hd : 0 < i.den) (h : i.nearest? k = some c) : i.Contains (c * 10 ^ k) := by
  obtain ⟨-, -, -, ⟨n, hn, hcontains⟩ | ⟨hnone, -⟩⟩ := nearest?_cases hd k
  · obtain rfl := Option.some.inj (h.symm.trans hn)
    exact hcontains
  · cases h.symm.trans hnone

theorem exists_nearest (hi : i.Proper)
    (hwide : (10 : ℚ) ^ k < (i.high : ℚ) / i.den - (i.low : ℚ) / i.den) :
    ∃ c, i.nearest? k = some c := by
  obtain ⟨hlow, hhigh⟩ := hi.bounds
  obtain ⟨c, hle, hlt, ⟨n, hn, -⟩ | ⟨-, hbelow, habove⟩⟩ := nearest?_cases hi.den_pos k
  · exact ⟨n, hn⟩
  -- Otherwise the interval lies between two neighbours, which are a power of ten apart.
  exfalso
  have hnext : ((c + 1 : ℕ) : ℚ) * 10 ^ k = c * 10 ^ k + 10 ^ k := by
    push_cast
    ring
  rw [hnext] at hlt habove
  unfold Contains at hbelow habove
  have hle' : (c : ℚ) * 10 ^ k ≤ i.low / i.den := by
    by_contra h
    refine hbelow ?_
    split <;> constructor <;> linarith
  refine habove ?_
  split <;> constructor <;> linarith

theorem exists_nearest_of_multiple (hi : i.Proper) {n : ℕ}
    (hn : (i.value : ℚ) / i.den = n * 10 ^ k) : ∃ c, i.nearest? k = some c := by
  have hten : (0 : ℚ) < 10 ^ k := zpow_pos (by norm_num) k
  obtain ⟨c, hle, hlt, ⟨m, hm, -⟩ | ⟨-, hbelow, -⟩⟩ := nearest?_cases hi.den_pos k
  · exact ⟨m, hm⟩
  exfalso
  rw [hn] at hle hlt
  have hcn : c = n := by
    have hcn := (mul_le_mul_iff_left₀ hten).mp hle
    have hnc := (mul_lt_mul_iff_left₀ hten).mp hlt
    have hcn' : c ≤ n := by exact_mod_cast hcn
    have hnc' : n < c + 1 := by exact_mod_cast hnc
    omega
  subst hcn
  rw [← hn] at hbelow
  exact hbelow hi.contains_value

end Interval

/-! ### The decimal logarithm -/

theorem ten_pow_le_two_pow_of {l p : ℤ} {a b : ℕ} (hb : b ≠ 0)
    (hnear : ((10 : ℚ) ^ a) ^ l ≤ (2 ^ b) ^ l) (hp : p * b ≤ a * l) : (10 : ℚ) ^ p ≤ 2 ^ l := by
  have hpow : ((10 : ℚ) ^ p) ^ b ≤ (2 ^ l) ^ b :=
    calc ((10 : ℚ) ^ p) ^ b = 10 ^ (p * b) := by rw [zpow_mul, zpow_natCast]
      _ ≤ 10 ^ (a * l) := zpow_le_zpow_right₀ (by norm_num) hp
      _ = (10 ^ a) ^ l := by rw [zpow_mul, zpow_natCast]
      _ ≤ (2 ^ b) ^ l := hnear
      _ = (2 ^ l) ^ b := by
        rw [← zpow_natCast, ← zpow_natCast, ← zpow_mul, ← zpow_mul, mul_comm]
  exact le_of_pow_le_pow_left₀ hb (zpow_nonneg (by norm_num) l) hpow

/-- The estimate of the decimal logarithm from the binary one is at most one too large. -/
theorem ten_pow_estimate {l : ℤ} (hl : l.natAbs ≤ 20000) :
    (10 : ℚ) ^ (l * 30103 / 100000 - 1) ≤ 2 ^ l := by
  obtain ⟨n, rfl | rfl⟩ := l.eq_nat_or_neg
  · -- `10^59` is a little below `2^196`.
    refine ten_pow_le_two_pow_of (a := 59) (b := 196) (by decide) ?_ (by omega)
    rw [zpow_natCast, zpow_natCast]
    exact pow_le_pow_left₀ (by norm_num) (by norm_num) n
  · -- `10^28` is a little above `2^93`.
    refine ten_pow_le_two_pow_of (a := 28) (b := 93) (by decide) ?_ (by omega)
    rw [zpow_neg, zpow_neg, zpow_natCast, zpow_natCast]
    exact inv_anti₀ (by positivity) (pow_le_pow_left₀ (by norm_num) (by norm_num) n)

theorem ratioLog10_bounds {n d : ℕ} (hn : 0 < n) (hd : 0 < d)
    (hl : (ratioLog2 n d).natAbs ≤ 20000) :
    (10 : ℚ) ^ ratioLog10 n d ≤ n / d ∧ ratioLog2 n d * 30103 / 100000 - 1 ≤ ratioLog10 n d ∧
      ratioLog10 n d ≤ ratioLog2 n d * 30103 / 100000 + 1 := by
  have hfits (p : ℤ) (h : d * Nat.pow 10 p.toNat ≤ n * Nat.pow 10 (-p).toNat) :
      (10 : ℚ) ^ p ≤ n / d := by
    have hmultiple := (multiple_le_iff hd n 1 p).1.mp (by rwa [one_mul])
    rwa [Nat.cast_one, one_mul] at hmultiple
  have hestimate := (ten_pow_estimate hl).trans (ratioLog2_bounds hn hd).1
  unfold ratioLog10
  extract_lets fits p
  split
  · next h => exact ⟨hfits _ (by simpa [fits] using h), by omega, by omega⟩
  · split
    · next h => exact ⟨hfits _ (by simpa [fits] using h), by omega, by omega⟩
    · exact ⟨hestimate, by omega, by omega⟩

/-! ### Rounding intervals -/

def halfway (n : ℕ) : ℚ := (gridValue n + gridValue (n + 1)) / 2

def gridInterval (n : ℕ) : Interval := roundingInterval (gridSignificand n) (gridExponent n)

theorem quarters (a : ℕ) (e : ℤ) :
    ((a <<< (e - 2).toNat : ℕ) : ℚ) / (1 <<< (2 - e).toNat : ℕ) = a / 4 * 2 ^ e := by
  have hratio := shiftRatio a 1 (2 - e)
  rw [neg_sub] at hratio
  have hfour : (2 : ℚ) ^ (2 : ℤ) = 4 := by norm_num
  rw [hratio, zpow_sub₀ two_ne_zero, hfour, Nat.cast_one, div_one, div_div_eq_mul_div,
    mul_div_right_comm]

theorem gridSignificand_pos {n : ℕ} (hn : 0 < n) : 0 < gridSignificand n := by
  unfold gridSignificand leadingBit
  split <;> omega

theorem gridExponent_below (n : ℕ) :
    gridSignificand (n + 1) = leadingBit ∧ -1074 < gridExponent (n + 1) ↔
      gridExponent (n + 1) = gridExponent n + 1 := by
  unfold gridSignificand gridExponent leadingBit
  split_ifs <;> omega

/-- The bounds of a rounding interval are halfway to the neighbours of the value. -/
theorem gridInterval_bounds (n : ℕ) :
    ((gridInterval (n + 1)).value : ℚ) / (gridInterval (n + 1)).den = gridValue (n + 1) ∧
      ((gridInterval (n + 1)).low : ℚ) / (gridInterval (n + 1)).den = halfway n ∧
      ((gridInterval (n + 1)).high : ℚ) / (gridInterval (n + 1)).den = halfway (n + 1) := by
  have hpos : 0 < gridSignificand (n + 1) := gridSignificand_pos (Nat.succ_pos n)
  unfold gridInterval roundingInterval
  dsimp only
  rw [quarters, quarters, quarters, halfway, halfway, gridValue_succ (n + 1)]
  refine ⟨?_, ?_, ?_⟩
  · rw [gridValue]
    push_cast
    ring
  · have hbelow : gridValue n = gridValue (n + 1) - 2 ^ gridExponent n := by
      rw [gridValue_succ]
      ring
    rw [hbelow, gridValue]
    split
    · next h =>
      rw [(gridExponent_below n).mp h, Nat.cast_sub (by omega), zpow_add_one₀ two_ne_zero]
      push_cast
      ring
    · next h =>
      have hsame : gridExponent (n + 1) = gridExponent n := by
        rcases grid_step n with hstep | hstep
        · exact hstep.1
        · exact absurd ((gridExponent_below n).mpr hstep.1) h
      rw [hsame, Nat.cast_sub (by omega)]
      push_cast
      ring
  · rw [gridValue]
    push_cast
    ring

theorem gridInterval_closed (n : ℕ) : (gridInterval n).closed = true ↔ Even n := by
  rw [← even_gridSignificand, Nat.even_iff]
  exact decide_eq_true_iff

theorem gridInterval_proper (n : ℕ) : (gridInterval (n + 1)).Proper := by
  have hden : 0 < (gridInterval (n + 1)).den := by
    show 0 < 1 <<< _
    rw [Nat.shiftLeft_eq]
    positivity
  have hd : (0 : ℚ) < (gridInterval (n + 1)).den := by exact_mod_cast hden
  obtain ⟨hvalue, hlow, hhigh⟩ := gridInterval_bounds n
  have hlt := gridValue_strictMono (Nat.lt_succ_self n)
  have hlt' := gridValue_strictMono (Nat.lt_succ_self (n + 1))
  constructor
  case den_pos => exact hden
  case low_lt =>
    have h : halfway n < gridValue (n + 1) := by
      unfold halfway
      linarith
    rw [← hlow, ← hvalue, div_lt_div_iff_of_pos_right hd] at h
    exact_mod_cast h
  case lt_high =>
    have h : gridValue (n + 1) < halfway (n + 1) := by
      unfold halfway
      linarith
    rw [← hhigh, ← hvalue, div_lt_div_iff_of_pos_right hd] at h
    exact_mod_cast h

theorem gridInterval_contains {n : ℕ} {q : ℚ} (h : (gridInterval (n + 1)).Contains q) :
    halfway n ≤ q ∧ q ≤ halfway (n + 1) ∧
      (q = halfway n ∨ q = halfway (n + 1) → Even (n + 1)) := by
  obtain ⟨-, hlow, hhigh⟩ := gridInterval_bounds n
  unfold Interval.Contains at h
  rw [hlow, hhigh] at h
  split at h
  · next hclosed => exact ⟨h.1, h.2, fun _ => (gridInterval_closed _).mp hclosed⟩
  · refine ⟨h.1.le, h.2.le, fun hbound => ?_⟩
    rcases hbound with rfl | rfl
    · exact absurd h.1 (lt_irrefl _)
    · exact absurd h.2 (lt_irrefl _)

/-- What lies in the rounding interval of a value is nearest to it. -/
theorem nearestGrid_of_contains {n : ℕ} {q : ℚ} (h : (gridInterval (n + 1)).Contains q) :
    NearestGrid q (n + 1) := by
  obtain ⟨hlow, hhigh, heven⟩ := gridInterval_contains h
  have hmono : Monotone gridValue := gridValue_strictMono.monotone
  have hlt := gridValue_strictMono (Nat.lt_succ_self n)
  have hlt' := gridValue_strictMono (Nat.lt_succ_self (n + 1))
  unfold halfway at hlow hhigh heven
  intro j
  rcases lt_trichotomy j (n + 1) with hj | rfl | hj
  · -- A value below is farther away than the neighbour below.
    have hle : gridValue j ≤ gridValue n := hmono (by omega)
    rw [abs_sub_comm (gridValue j), abs_of_nonneg (a := q - gridValue j) (by linarith)]
    rcases abs_cases (gridValue (n + 1) - q) with ⟨habs, -⟩ | ⟨habs, -⟩
    · rw [habs]
      exact ⟨by linarith, fun heq => .inr (heven (.inl (by linarith)))⟩
    · rw [habs]
      exact ⟨by linarith, fun heq => absurd heq (by linarith)⟩
  · exact ⟨le_rfl, fun _ => .inl rfl⟩
  · have hle : gridValue (n + 1 + 1) ≤ gridValue j := hmono (by omega)
    rw [abs_of_nonneg (a := gridValue j - q) (by linarith)]
    rcases abs_cases (gridValue (n + 1) - q) with ⟨habs, -⟩ | ⟨habs, -⟩
    · rw [habs]
      exact ⟨by linarith, fun heq => absurd heq (by linarith)⟩
    · rw [habs]
      exact ⟨by linarith, fun heq => .inr (heven (.inr (by linarith)))⟩

/-! ### The search for the shortest decimal -/

theorem gridValue_range {n : ℕ} (hn : n + 1 < 2047 * leadingBit) :
    (2 : ℚ) ^ (-1074 : ℤ) ≤ gridValue (n + 1) ∧ gridValue (n + 1) < 2 ^ (1024 : ℤ) := by
  constructor
  · have hone : gridValue 1 = 2 ^ (-1074 : ℤ) := by
      rw [gridValue_succ, gridValue_zero, zero_add]
      rfl
    rw [← hone]
    exact gridValue_strictMono.monotone (Nat.succ_le_succ (Nat.zero_le n))
  · have htop := placeValue_topPlace
    rw [topPlace_eq, placeValue_natCast] at htop
    have hlt := gridValue_strictMono hn
    rw [htop] at hlt
    exact_mod_cast hlt

theorem ratioLog2_range {n : ℕ} (hn : n + 1 < 2047 * leadingBit) {l : ℤ}
    (hl : ratioLog2 (gridInterval (n + 1)).value (gridInterval (n + 1)).den = l) :
    -1075 < l ∧ l < 1024 ∧ (2 : ℚ) ^ l ≤ gridValue (n + 1) ∧ gridValue (n + 1) < 2 ^ (l + 1) := by
  have hproper := gridInterval_proper n
  obtain ⟨hlow, hhigh⟩ := gridValue_range hn
  obtain ⟨hle, hlt⟩ := ratioLog2_bounds (Nat.zero_lt_of_lt hproper.low_lt) hproper.den_pos
  rw [(gridInterval_bounds n).1, hl] at hle hlt
  have hmin := (zpow_lt_zpow_iff_right₀ (by norm_num : (1 : ℚ) < 2)).mp (hlow.trans_lt hlt)
  have hmax := (zpow_lt_zpow_iff_right₀ (by norm_num : (1 : ℚ) < 2)).mp (hle.trans_lt hhigh)
  exact ⟨by omega, hmax, hle, hlt⟩

/-- A step of seventeen digits is shorter than the rounding interval. -/
theorem seventeen_digits {n : ℕ} {p : ℤ} (hp : (10 : ℚ) ^ p ≤ gridValue (n + 1)) :
    (10 : ℚ) ^ (p - 16) < halfway (n + 1) - halfway n := by
  have hwidth : halfway (n + 1) - halfway n =
      (2 ^ gridExponent (n + 1) + 2 ^ gridExponent n) / 2 := by
    rw [halfway, halfway, gridValue_succ (n + 1), gridValue_succ n]
    ring
  have hstep : (10 : ℚ) ^ (p - 16) ≤ gridSignificand (n + 1) / 10 ^ 16 * 2 ^ gridExponent (n + 1) := by
    rw [zpow_sub₀ (by norm_num), div_mul_eq_mul_div]
    exact div_le_div_of_nonneg_right hp (by norm_num)
  have hunit : (0 : ℚ) < 2 ^ gridExponent n := zpow_pos two_pos _
  refine hstep.trans_lt ?_
  rw [hwidth]
  rcases grid_step n with ⟨hsame, -⟩ | ⟨hnext, -, hleast⟩
  · have hsignificand : (gridSignificand (n + 1) : ℚ) < 10 ^ 16 := by
      have hlt : gridSignificand (n + 1) < 10 ^ 16 := by
        unfold gridSignificand leadingBit
        split <;> omega
      exact_mod_cast hlt
    have hratio := (div_lt_one (by norm_num : (0 : ℚ) < 10 ^ 16)).mpr hsignificand
    rw [hsame]
    nlinarith
  · rw [hleast, hnext, zpow_add_one₀ two_ne_zero]
    have hratio : (leadingBit : ℚ) / 10 ^ 16 < 1 / 2 := by
      unfold leadingBit
      norm_num
    nlinarith

theorem findSome?_range {α : Type} {f : ℕ → Option α} {b : α} (n : ℕ)
    (h : (List.range n).findSome? f = some b) :
    ∃ j < n, f j = some b ∧ ∀ i < j, f i = none := by
  induction n with
  | zero => cases h
  | succ n ih =>
    rw [List.range_succ, List.findSome?_append] at h
    rcases Option.or_eq_some_iff.mp h with hbefore | ⟨hnone, hlast⟩
    · obtain ⟨j, hj, hfound⟩ := ih hbefore
      exact ⟨j, by omega, hfound⟩
    · refine ⟨n, by omega, by simpa using hlast, fun i hi => ?_⟩
      exact List.findSome?_eq_none_iff.mp hnone i (List.mem_range.mpr hi)

/-- The grids are searched from the power of ten above the value down. If the last of them has a
decimal, then what is found is the first decimal on them. -/
theorem Interval.shortest_first {i : Interval} {p : ℤ} (hp : ratioLog10 i.value i.den + 1 = p)
    (hlast : ∃ d, i.nearest? (p - (17 : ℕ)) = some d) {c : ℕ} {k : ℤ} (h : i.shortest = (c, k)) :
    ∃ j < 18, k = p - (j : ℕ) ∧ i.nearest? k = some c ∧
      ∀ l < j, i.nearest? (p - (l : ℕ)) = none := by
  unfold shortest at h
  rw [hp] at h
  extract_lets start grid at h
  cases hfound : (List.range 18).findSome? grid with
  | none =>
    obtain ⟨d, hd⟩ := hlast
    have hnone := List.findSome?_eq_none_iff.mp hfound 17 (by decide)
    cases hd.symm.trans (Option.map_eq_none_iff.mp hnone)
  | some found =>
    rw [hfound] at h
    obtain rfl : found = (c, k) := h
    obtain ⟨j, hj, hgrid, hbefore⟩ := findSome?_range 18 hfound
    obtain ⟨d, hd, hpair⟩ := Option.map_eq_some_iff.mp hgrid
    obtain ⟨rfl, rfl⟩ := Prod.mk.inj hpair
    exact ⟨j, hj, rfl, hd, fun l hl => Option.map_eq_none_iff.mp (hbefore l hl)⟩

theorem seventeenth_grid {n : ℕ} {p : ℤ} (hp : (10 : ℚ) ^ p ≤ gridValue (n + 1)) :
    ∃ d, (gridInterval (n + 1)).nearest? (p + 1 - (17 : ℕ)) = some d := by
  obtain ⟨-, hlow, hhigh⟩ := gridInterval_bounds n
  refine Interval.exists_nearest (gridInterval_proper n) ?_
  have hplaces : p + 1 - (17 : ℕ) = p - 16 := by omega
  rw [hlow, hhigh, hplaces]
  exact seventeen_digits hp

/-- The decimal that is found for a float, with bounds on its power of ten. From one upward the grid
of the integers is among those that are searched. -/
theorem shortest_found {n : ℕ} (hn : n + 1 < 2047 * leadingBit) {c : ℕ} {k : ℤ}
    (h : (gridInterval (n + 1)).shortest = (c, k)) :
    ∃ p : ℤ, -326 ≤ p ∧ p ≤ 311 ∧ (1 ≤ gridValue (n + 1) → 0 ≤ p) ∧
      ∃ j < 18, k = p - (j : ℕ) ∧ (gridInterval (n + 1)).nearest? k = some c ∧
        ∀ l < j, (gridInterval (n + 1)).nearest? (p - (l : ℕ)) = none := by
  have hproper := gridInterval_proper n
  obtain ⟨hmin, hmax, -, hlt⟩ := ratioLog2_range hn rfl
  obtain ⟨hten, hleast, hgreatest⟩ := ratioLog10_bounds (Nat.zero_lt_of_lt hproper.low_lt)
    hproper.den_pos (by omega)
  rw [(gridInterval_bounds n).1] at hten
  refine ⟨_, by omega, by omega, fun hone => ?_,
    Interval.shortest_first rfl (seventeenth_grid hten) h⟩
  have hpos := (zpow_lt_zpow_iff_right₀ (by norm_num : (1 : ℚ) < 2)).mp
    ((zpow_zero (2 : ℚ)).trans_le hone |>.trans_lt hlt)
  omega

section
variable {n c : ℕ} {k : ℤ} {q : ℚ}

theorem shortest_contains (hn : n + 1 < 2047 * leadingBit)
    (h : (gridInterval (n + 1)).shortest = (c, k)) :
    (gridInterval (n + 1)).Contains (c * 10 ^ k) := by
  obtain ⟨-, -, -, -, -, -, -, hfound, -⟩ := shortest_found hn h
  exact Interval.nearest?_contains (gridInterval_proper n).den_pos hfound

theorem pos_of_contains (h : (gridInterval (n + 1)).Contains q) : 0 < q := by
  obtain ⟨hlow, -⟩ := gridInterval_contains h
  have hzero := gridValue_strictMono.monotone (Nat.zero_le n)
  have hlt := gridValue_strictMono (Nat.lt_succ_self n)
  unfold halfway at hlow
  rw [gridValue_zero] at hzero
  linarith

theorem distance_of_contains (h : (gridInterval (n + 1)).Contains q) :
    |q - gridValue (n + 1)| ≤ 2 ^ gridExponent (n + 1) / 2 := by
  obtain ⟨hlow, hhigh, -⟩ := gridInterval_contains h
  have hbelow : (2 : ℚ) ^ gridExponent n ≤ 2 ^ gridExponent (n + 1) := by
    refine zpow_le_zpow_right₀ (by norm_num) ?_
    rcases grid_step n with hstep | hstep <;> omega
  unfold halfway at hlow hhigh
  rw [gridValue_succ (n + 1)] at hhigh
  have hprevious := gridValue_succ n
  rw [abs_le]
  constructor <;> linarith

theorem integral_of_contains {a : ℕ} (h : (gridInterval (n + 1)).Contains a) :
    ∃ b : ℕ, gridValue (n + 1) = b := by
  have hdistance := distance_of_contains h
  rw [gridValue] at hdistance ⊢
  obtain ⟨l, hl | hl⟩ := (gridExponent (n + 1)).eq_nat_or_neg
  · exact ⟨gridSignificand (n + 1) * 2 ^ l, by rw [hl, zpow_natCast]; push_cast; rfl⟩
  · -- In units of the last place, the integer is the significand.
    have hunit : (0 : ℚ) < 2 ^ l := pow_pos two_pos l
    rw [hl, zpow_neg, zpow_natCast] at hdistance ⊢
    have hscaled : |((a * 2 ^ l : ℕ) : ℚ) - gridSignificand (n + 1)| < 1 := by
      have hscale : ((a * 2 ^ l : ℕ) : ℚ) - gridSignificand (n + 1) =
          (a - gridSignificand (n + 1) * (2 ^ l)⁻¹) * 2 ^ l := by
        push_cast
        rw [sub_mul, inv_mul_cancel_right₀ hunit.ne']
      rw [hscale, abs_mul, abs_of_pos hunit]
      calc |(a : ℚ) - gridSignificand (n + 1) * (2 ^ l)⁻¹| * 2 ^ l
          ≤ (2 ^ l)⁻¹ / 2 * 2 ^ l := mul_le_mul_of_nonneg_right hdistance hunit.le
        _ = 1 / 2 := by rw [div_mul_eq_mul_div, inv_mul_cancel₀ hunit.ne']
        _ < 1 := by norm_num
    have hequal : (a * 2 ^ l : ℕ) = gridSignificand (n + 1) := by
      have hint : |((a * 2 ^ l : ℕ) : ℤ) - gridSignificand (n + 1)| < 1 := by exact_mod_cast hscaled
      have hzero := Int.abs_lt_one_iff.mp hint
      omega
    refine ⟨a, ?_⟩
    rw [← hequal]
    push_cast
    exact mul_inv_cancel_right₀ hunit.ne' _

/-- The shortest decimal of a value is an integer exactly when the value is one. -/
theorem shortest_integral_iff (hn : n + 1 < 2047 * leadingBit)
    (h : (gridInterval (n + 1)).shortest = (c, k)) :
    0 ≤ k ↔ ∃ b : ℕ, gridValue (n + 1) = b := by
  constructor
  · intro hk
    obtain ⟨l, rfl⟩ := Int.eq_ofNat_of_zero_le hk
    have hcontains := shortest_contains hn h
    rw [zpow_natCast] at hcontains
    exact integral_of_contains (a := c * 10 ^ l) (by push_cast; exact hcontains)
  · rintro ⟨b, hb⟩
    obtain ⟨p, -, -, hpos, j, -, rfl, -, hbefore⟩ := shortest_found hn h
    by_contra hneg
    have hone : 1 ≤ gridValue (n + 1) := by
      have hlt := gridValue_strictMono (Nat.succ_pos n)
      rw [gridValue_zero, hb] at hlt
      rw [hb]
      exact_mod_cast (by exact_mod_cast hlt : 0 < b)
    -- The grid of the integers was searched before, and has the value itself.
    obtain ⟨i, hi⟩ := Int.eq_ofNat_of_zero_le (hpos hone)
    have hnone := hbefore i (by omega)
    obtain ⟨d, hd⟩ := Interval.exists_nearest_of_multiple (k := p - (i : ℕ)) (n := b)
      (gridInterval_proper n) (by rw [(gridInterval_bounds n).1, hb, hi]; simp)
    cases hnone.symm.trans hd

/-! ### Reading decimals -/

theorem ofRat_of_nearestGrid (hn : n ≤ 2047 * leadingBit) (hq : 0 ≤ q) (h : NearestGrid q n) :
    ofRat q = ofSignBits false n := by
  obtain ⟨l, -, hl⟩ := nearestBits_spec q.num.natAbs q.den_pos
  obtain ⟨hnan, hplace⟩ := place_ofSignBits hn false
  have hnearest : (ofSignBits false n).Nearest q := by
    have hgrid := h.nearestPlace hq
    rw [min_eq_left hn] at hgrid
    exact nearest_iff_place.mpr ⟨hnan, by rw [hplace]; exact hgrid⟩
  have hbits : nearestBits q.num.natAbs q.den ≤ 2047 * leadingBit := hl ▸ min_le_right _ _
  have hsame := (nearest_iff.mp hnearest).2
  unfold ofRat at hsame ⊢
  rw [decide_eq_false (not_lt.mpr hq)] at hsame ⊢
  rw [hplace, (place_ofSignBits hbits false).2] at hsame
  have hequal : (n : ℤ) = nearestBits q.num.natAbs q.den := hsame
  rw [← Int.natCast_inj.mp hequal]

theorem ofRat_of_contains (hn : n + 1 < 2047 * leadingBit)
    (h : (gridInterval (n + 1)).Contains q) : ofRat q = ofSignBits false (n + 1) :=
  ofRat_of_nearestGrid hn.le (pos_of_contains h).le (nearestGrid_of_contains h)

/-- Within the range of floats a decimal is not cut off before it is rounded. -/
theorem ofDecimal_eq (hc : c ≠ 0) (hk : k ≤ 400) (hk' : -400 ≤ k) :
    ofDecimal c k = ofRat (c * 10 ^ k) := by
  unfold ofDecimal
  rw [if_neg hc, if_neg (by omega), if_neg (by omega)]
  split
  · next h =>
    obtain ⟨l, rfl⟩ := Int.eq_ofNat_of_zero_le h
    simp
  · next h =>
    obtain ⟨l, rfl⟩ : ∃ l : ℕ, k = -l := ⟨(-k).toNat, by omega⟩
    rw [Rat.mkRat_eq_div]
    simp [div_eq_mul_inv]

/-- The shortest decimal of a value is read as the float of that value. -/
theorem ofDecimal_shortest (hn : n + 1 < 2047 * leadingBit)
    (h : (gridInterval (n + 1)).shortest = (c, k)) :
    c ≠ 0 ∧ ofDecimal c k = ofRat (c * 10 ^ k) ∧ ofRat (c * 10 ^ k) = ofSignBits false (n + 1) := by
  have hcontains := shortest_contains hn h
  have hc : c ≠ 0 := by
    rintro rfl
    simpa using pos_of_contains hcontains
  obtain ⟨p, hlow, hhigh, -, j, hj, rfl, -⟩ := shortest_found hn h
  exact ⟨hc, ofDecimal_eq hc (by omega) (by omega), ofRat_of_contains hn hcontains⟩

end

end BeginningStudent.Decimal
