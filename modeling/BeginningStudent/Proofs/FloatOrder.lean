import BeginningStudent.Numeric.Binary64
import Mathlib.Algebra.Order.Field.Power
import Mathlib.Algebra.Order.Field.Rat
import Mathlib.Algebra.Order.SuccPred
import Mathlib.Data.Int.ConditionallyCompleteOrder
import Mathlib.Order.Compare
import Mathlib.Order.WithBot
import Mathlib.Tactic.Linarith
import Mathlib.Tactic.LinearCombination
import Mathlib.Tactic.Ring

/-!
# The order of floats

The bits of a float below its sign number the floats from zero upward, and the values of the floats
go up with these numbers. So the places of floats, by which `Binary64.compare` goes, are in the
order of the values: those of the finite floats, with an infinity at either end
(`Binary64.compare_values`).
-/

namespace BeginningStudent.Binary64

/-! ### Values by number -/

def gridSignificand (n : ℕ) : ℕ :=
  if n / leadingBit = 0 then n else leadingBit + n % leadingBit

def gridExponent (n : ℕ) : ℤ :=
  if n / leadingBit = 0 then -1074 else (n / leadingBit : ℕ) - 1075

/-- The value of the float with the given bits below the sign. The values go on behind the greatest
float as if there were no bound to exponents. -/
def gridValue (n : ℕ) : ℚ := gridSignificand n * 2 ^ gridExponent n

theorem gridValue_zero : gridValue 0 = 0 := by simp [gridValue, gridSignificand]

theorem grid_step (n : ℕ) :
    gridExponent (n + 1) = gridExponent n ∧ gridSignificand (n + 1) = gridSignificand n + 1 ∨
    gridExponent (n + 1) = gridExponent n + 1 ∧ gridSignificand n + 1 = 2 * leadingBit ∧
      gridSignificand (n + 1) = leadingBit := by
  unfold gridExponent gridSignificand leadingBit
  split_ifs <;> omega

theorem gridValue_succ (n : ℕ) : gridValue (n + 1) = gridValue n + 2 ^ gridExponent n := by
  rcases grid_step n with ⟨he, hs⟩ | ⟨he, hlast, hs⟩
  · rw [gridValue, gridValue, he, hs]
    push_cast
    ring
  · -- The exponent goes up by one where the significand goes down to its half.
    have hlast : (gridSignificand n : ℚ) + 1 = 2 * leadingBit := by exact_mod_cast hlast
    rw [gridValue, gridValue, he, hs, zpow_add_one₀ two_ne_zero]
    linear_combination -(2 : ℚ) ^ gridExponent n * hlast

theorem gridValue_strictMono : StrictMono gridValue := by
  refine strictMono_nat_of_lt_succ fun n => ?_
  rw [gridValue_succ]
  exact lt_add_of_pos_right _ (zpow_pos two_pos _)

theorem gridValue_at {e : ℤ} {s : ℕ} (he : -1074 ≤ e) (hs : s ≤ 2 * leadingBit)
    (hlow : leadingBit ≤ s ∨ e = -1074) :
    gridValue ((e + 1074).toNat * leadingBit + s) = s * 2 ^ e := by
  have hcases : gridExponent ((e + 1074).toNat * leadingBit + s) = e ∧
        gridSignificand ((e + 1074).toNat * leadingBit + s) = s ∨
      gridExponent ((e + 1074).toNat * leadingBit + s) = e + 1 ∧ s = 2 * leadingBit ∧
        gridSignificand ((e + 1074).toNat * leadingBit + s) = leadingBit := by
    unfold leadingBit at hs hlow
    unfold gridExponent gridSignificand leadingBit
    split_ifs <;> omega
  rcases hcases with ⟨hexponent, hsignificand⟩ | ⟨hexponent, rfl, hsignificand⟩
  · rw [gridValue, hexponent, hsignificand]
  · rw [gridValue, hexponent, hsignificand, zpow_add_one₀ two_ne_zero]
    push_cast
    ring

/-! ### Values by place -/

/-- The value at a place in the order of floats. -/
def placeValue (p : ℤ) : ℚ := if p < 0 then -gridValue p.natAbs else gridValue p.natAbs

theorem placeValue_natCast (n : ℕ) : placeValue n = gridValue n := by
  simp [placeValue]

theorem placeValue_zero : placeValue 0 = 0 := by simp [placeValue, gridValue_zero]

theorem placeValue_neg (p : ℤ) : placeValue (-p) = -placeValue p := by
  rcases lt_trichotomy p 0 with hp | rfl | hp
  · simp [placeValue, hp, hp.le]
  · simp [placeValue, gridValue_zero]
  · simp [placeValue, hp, hp.le]

theorem placeValue_strictMono : StrictMono placeValue := by
  refine strictMono_int_of_lt_succ fun p => ?_
  have hgrid {m n : ℕ} : m < n → gridValue m < gridValue n := fun h => gridValue_strictMono h
  rcases le_or_gt 0 p with hp | hp
  · rw [placeValue, placeValue, if_neg (by omega), if_neg (by omega)]
    exact hgrid (by omega)
  · rcases eq_or_ne p (-1) with rfl | hne
    · have hone : gridValue 0 < gridValue 1 := hgrid (by omega)
      simpa [placeValue, gridValue_zero] using hone
    · rw [placeValue, placeValue, if_pos hp, if_pos (by omega), neg_lt_neg_iff]
      exact hgrid (by omega)

/-! ### Values of floats -/

variable {x y : Binary64}

def topPlace : ℤ := 2047 * leadingBit

theorem place_bounds (hx : x.isNaN = false) : -topPlace ≤ x.place ∧ x.place ≤ topPlace := by
  rw [isNaN, decide_eq_false_iff_not] at hx
  unfold exponentField fraction leadingBit at hx
  unfold topPlace place magnitude signWeight leadingBit
  split_ifs <;> omega

theorem isFinite_iff : x.isFinite = true ↔ -topPlace < x.place ∧ x.place < topPlace := by
  rw [isFinite, decide_eq_true_eq]
  unfold exponentField topPlace place magnitude signWeight leadingBit
  split_ifs <;> omega

theorem place_of_infinite (hx : x.isNaN = false) (hf : x.isFinite = false) :
    x.signBit = true ∧ x.place = -topPlace ∨ x.signBit = false ∧ x.place = topPlace := by
  obtain ⟨hlow, hhigh⟩ := place_bounds hx
  have hends := isFinite_iff.not.mp (Bool.eq_false_iff.mp hf)
  have htop : (0 : ℤ) < topPlace := by decide
  cases hsign : x.signBit with
  | true =>
    have hplace : x.place = -(x.magnitude : ℤ) := by rw [place, if_pos hsign]
    exact .inl ⟨rfl, by omega⟩
  | false =>
    have hplace : x.place = x.magnitude := by rw [place, hsign]; rfl
    exact .inr ⟨rfl, by omega⟩

theorem significand_eq (x : Binary64) : x.significand = gridSignificand x.magnitude := by
  unfold significand exponentField fraction gridSignificand magnitude signWeight leadingBit
  split_ifs <;> omega

theorem exponent_eq (x : Binary64) : x.exponent = gridExponent x.magnitude := by
  unfold exponent exponentField gridExponent magnitude signWeight leadingBit
  split_ifs <;> omega

theorem scale_eq (m : ℕ) (e : ℤ) : scale m e = m * 2 ^ e := by
  unfold scale
  split
  · next he =>
    obtain ⟨k, rfl⟩ := Int.eq_ofNat_of_zero_le he
    simp [Nat.shiftLeft_eq]
  · next he =>
    obtain ⟨k, hk⟩ := Int.eq_ofNat_of_zero_le (a := -e) (by omega)
    obtain rfl : e = -k := by omega
    rw [Rat.mkRat_eq_div]
    simp [Nat.shiftLeft_eq, zpow_neg, div_eq_mul_inv]

theorem placeValue_place (x : Binary64) :
    placeValue x.place = if x.signBit then -gridValue x.magnitude else gridValue x.magnitude := by
  rw [place]
  split
  · rw [placeValue_neg, placeValue_natCast]
  · rw [placeValue_natCast]

theorem toRat?_eq (x : Binary64) :
    x.toRat? = if x.isFinite then some (placeValue x.place) else none := by
  have hvalue : scale x.significand x.exponent = gridValue x.magnitude := by
    rw [scale_eq, significand_eq, exponent_eq, gridValue]
  rw [toRat?, hvalue, placeValue_place]

/-- A rational among the values of floats, between the two infinities. -/
def rationalValue (q : ℚ) : WithBot (WithTop ℚ) := (q : WithTop ℚ)

theorem rationalValue_strictMono : StrictMono rationalValue :=
  WithBot.coe_strictMono.comp WithTop.coe_strictMono

theorem bot_lt_rationalValue (q : ℚ) : ⊥ < rationalValue q := WithBot.bot_lt_coe _

theorem rationalValue_lt_top (q : ℚ) : rationalValue q < ⊤ :=
  WithBot.coe_lt_coe.mpr (WithTop.coe_lt_top q)

/-- The value of a float that is not NaN: a rational or an infinity. -/
def value? (x : Binary64) : Option (WithBot (WithTop ℚ)) :=
  match x.toRat? with
  | some q => some (rationalValue q)
  | none => if x.isNaN then none else some (if x.signBit then ⊥ else ⊤)

/-- The value at a place, an end at the places of the infinities. -/
def endedValue (p : ℤ) : WithBot (WithTop ℚ) :=
  if p ≤ -topPlace then ⊥ else if topPlace ≤ p then ⊤ else rationalValue (placeValue p)

theorem endedValue_strictMonoOn : StrictMonoOn endedValue (Set.Icc (-topPlace) topPlace) := by
  intro p hp q hq hlt
  obtain ⟨hp, -⟩ := Set.mem_Icc.mp hp
  obtain ⟨-, hq⟩ := Set.mem_Icc.mp hq
  unfold endedValue
  split_ifs <;> first
    | omega
    | exact rationalValue_strictMono (placeValue_strictMono hlt)
    | exact bot_lt_top
    | exact bot_lt_rationalValue _
    | exact rationalValue_lt_top _

theorem value?_eq_none : x.value? = none ↔ x.isNaN = true := by
  unfold value?
  rw [toRat?_eq]
  cases hn : x.isNaN with
  | false => cases x.isFinite <;> simp
  | true =>
    have hfinite : x.isFinite = false := by
      simp only [isNaN, decide_eq_true_eq] at hn
      simp [isFinite, hn.1]
    simp [hfinite]

theorem value?_eq (hx : x.isNaN = false) : x.value? = some (endedValue x.place) := by
  unfold value?
  rw [toRat?_eq]
  cases hf : x.isFinite with
  | true =>
    obtain ⟨hl, hh⟩ := isFinite_iff.mp hf
    simp [endedValue, not_le.mpr hl, not_le.mpr hh]
  | false =>
    have htop : -topPlace < topPlace := by decide
    rcases place_of_infinite hx hf with ⟨hsign, hplace⟩ | ⟨hsign, hplace⟩
    · simp [hx, hsign, endedValue, hplace]
    · simp [hx, hsign, endedValue, hplace, not_le.mpr htop]

theorem compare_values {u v : WithBot (WithTop ℚ)} (hx : x.value? = some u)
    (hy : y.value? = some v) : compare x y = some (cmp u v) := by
  have hxn : x.isNaN = false := by
    rw [Bool.eq_false_iff, Ne, ← value?_eq_none, hx]
    simp
  have hyn : y.isNaN = false := by
    rw [Bool.eq_false_iff, Ne, ← value?_eq_none, hy]
    simp
  rw [value?_eq hxn] at hx
  rw [value?_eq hyn] at hy
  cases hx
  cases hy
  rw [compare, hxn, hyn, endedValue_strictMonoOn.cmp_map_eq (place_bounds hxn) (place_bounds hyn),
    cmp_eq_compare]
  rfl

end BeginningStudent.Binary64
