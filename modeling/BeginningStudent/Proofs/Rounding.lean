import BeginningStudent.Proofs.Comparison

/-!
# Rounding of rationals

`floor` and `ceiling` of a rational are the integers next to it, and `round` is the nearest integer,
the even one of two that are equally near. At most one integer is nearest in this sense, and which
one it is goes up with the rational (`NearestEven.mono`). So `round` is symmetric about zero, though
it is computed from the integer below (`RealNumber.rounding_laws`).
-/

namespace BeginningStudent.RealNumber

variable {p q : ℚ} {m n : ℤ}

/-! ### The nearest integer -/

/-- No integer is nearer to the rational, and the integer is even if another one is as near. -/
structure NearestEven (q : ℚ) (n : ℤ) : Prop where
  near : |q - n| ≤ 1 / 2
  even : |q - n| = 1 / 2 → Even n

namespace NearestEven

theorem of_le (hle : n ≤ q) (hnear : q - n ≤ 1 / 2) (heven : q - n = 1 / 2 → Even n) :
    NearestEven q n := by
  have habs : |q - n| = q - n := abs_of_nonneg (sub_nonneg.mpr hle)
  constructor
  · rwa [habs]
  · rwa [habs]

theorem neg (h : NearestEven q n) : NearestEven (-q) (-n) := by
  have habs : |-q - (-n : ℤ)| = |q - n| := by
    rw [Int.cast_neg, ← neg_sub', abs_neg]
  constructor
  · rw [habs]
    exact h.near
  · intro htie
    rw [habs] at htie
    exact (h.even htie).neg

theorem intCast (n : ℤ) : NearestEven n n := by
  apply of_le le_rfl
  · norm_num
  · norm_num

theorem mono (hp : NearestEven p m) (hq : NearestEven q n) (hpq : p ≤ q) : m ≤ n := by
  by_contra! hlt
  obtain ⟨hlow, -⟩ := abs_le.mp hp.near
  obtain ⟨-, hhigh⟩ := abs_le.mp hq.near
  have hstep : (n : ℚ) + 1 ≤ m := by exact_mod_cast hlt
  -- The two rationals are the half between `n` and its successor `m`, and only one of these is even.
  have hm : (m : ℚ) = n + 1 := by linarith
  have htie : q - n = 1 / 2 := by linarith
  have htie' : p - m = -(1 / 2) := by linarith
  have hn : Even n := hq.even (by rw [htie, abs_of_pos one_half_pos])
  have hsucc : Even m := hp.even (by rw [htie', abs_neg, abs_of_pos one_half_pos])
  obtain rfl : m = n + 1 := by exact_mod_cast hm
  exact Int.even_add_one.mp hsucc hn

theorem unique (hm : NearestEven q m) (hn : NearestEven q n) : m = n :=
  le_antisymm (hm.mono hn le_rfl) (hn.mono hm le_rfl)

end NearestEven

theorem roundEven_nearest (q : ℚ) : NearestEven q (roundEven q) := by
  have hlow : (q.floor : ℚ) ≤ q := Rat.floor_le q
  have hhigh : q < q.floor + 1 := by exact_mod_cast Rat.lt_floor_add_one q
  -- The integer above is the one below for the opposite rational.
  have habove (hhalf : 1 / 2 ≤ q - q.floor) (heven : q - q.floor = 1 / 2 → Even (q.floor + 1)) :
      NearestEven q (q.floor + 1) := by
    have hneg : NearestEven (-q) (-(q.floor + 1)) := by
      apply NearestEven.of_le
      · push_cast
        linarith
      · push_cast
        linarith
      · intro htie
        push_cast at htie
        exact (heven (by linarith)).neg
    simpa using hneg.neg
  unfold roundEven
  dsimp only
  split_ifs with hless hmore hparity
  · exact .of_le hlow hless.le fun htie => absurd htie hless.ne
  · exact habove hmore.le fun htie => absurd htie hmore.ne'
  · exact .of_le hlow (not_lt.mp hmore) fun _ => Int.even_iff.mpr hparity
  · have hodd : ¬Even q.floor := fun h => hparity (Int.even_iff.mp h)
    exact habove (not_lt.mp hless) fun _ => Int.even_add_one.mpr hodd

theorem roundEven_neg (q : ℚ) : roundEven (-q) = -roundEven q :=
  (roundEven_nearest (-q)).unique (roundEven_nearest q).neg

/-! ### Roundings -/

/-- The function goes up with its argument, and an integer is its own value. -/
structure IsRounding (f : ℚ → ℤ) : Prop where
  mono : Monotone f
  intCast : ∀ n : ℤ, f n = n

theorem floor_isRounding : IsRounding Rat.floor where
  mono _ _ h := Rat.floor_monotone h
  intCast := Rat.floor_intCast

theorem ceil_isRounding : IsRounding Rat.ceil where
  mono _ _ h := Rat.ceil_le_iff.mpr (h.trans Rat.le_ceil)
  intCast := Rat.ceil_intCast

theorem roundEven_isRounding : IsRounding roundEven where
  mono p q h := (roundEven_nearest p).mono (roundEven_nearest q) h
  intCast n := (roundEven_nearest n).unique (.intCast n)

theorem floor_isGreatest (q : ℚ) : IsGreatest {n : ℤ | (n : ℚ) ≤ q} q.floor :=
  ⟨Rat.floor_le q, fun _ hn => Rat.le_floor_iff.mpr hn⟩

theorem ceil_isLeast (q : ℚ) : IsLeast {n : ℤ | q ≤ n} q.ceil :=
  ⟨Rat.le_ceil, fun _ hn => Rat.ceil_le_iff.mpr hn⟩

/-- Every rounding stays between the integers next to the rational. -/
theorem IsRounding.between {f : ℚ → ℤ} (hf : IsRounding f) (q : ℚ) :
    q.floor ≤ f q ∧ f q ≤ q.ceil := by
  have hlow := hf.mono (Rat.floor_le q)
  have hhigh := hf.mono (Rat.le_ceil (x := q))
  rw [hf.intCast] at hlow hhigh
  exact ⟨hlow, hhigh⟩

/-! ### Both kinds of rationals -/

section

variable {kind : ℚ → RealNumber}

theorem mapInt_kind (hkind : kind ∈ [exact, inexact]) (f : ℚ → ℤ) (q : ℚ) :
    (kind q).mapInt f = kind (f q) := by
  simp only [List.mem_cons, List.not_mem_nil, or_false] at hkind
  rcases hkind with rfl | rfl <;> rfl

theorem round_kind (hkind : kind ∈ [exact, inexact]) (q : ℚ) :
    (kind q).round = kind (roundEven q) := by
  simp only [List.mem_cons, List.not_mem_nil, or_false] at hkind
  rcases hkind with rfl | rfl <;> rfl

theorem negate_kind (hkind : kind ∈ [exact, inexact]) (q : ℚ) : (kind q).negate = kind (-q) := by
  simp only [List.mem_cons, List.not_mem_nil, or_false] at hkind
  rcases hkind with rfl | rfl <;> rfl

theorem atMost_kind (hkind : kind ∈ [exact, inexact]) :
    (kind p).atMost (kind q) = true ↔ p ≤ q := by
  have hrational (r : ℚ) : (kind r).rational? = some r := by
    simp only [List.mem_cons, List.not_mem_nil, or_false] at hkind
    rcases hkind with rfl | rfl <;> rfl
  exact atMost_iff (compare_of_rational (hrational p) (hrational q))

end

/-- Rounding of the rationals of either kind: an operation on integers of that kind, by the nearest
integer and by those next to the rational. -/
theorem rounding_laws :
    ∀ kind ∈ [exact, inexact],
      (∀ q, ∃ low near high : ℤ,
        (kind q).floor = kind low ∧ (kind q).round = kind near ∧ (kind q).ceiling = kind high ∧
        IsGreatest {n : ℤ | (n : ℚ) ≤ q} low ∧ NearestEven q near ∧ IsLeast {n : ℤ | q ≤ n} high) ∧
      (∀ q, (kind q).negate.round = (kind q).round.negate ∧
        (kind q).floor.atMost (kind q).round = true ∧
        (kind q).round.atMost (kind q).ceiling = true) ∧
      ∀ rounding ∈ [floor, round, ceiling],
        (∀ q, rounding (rounding (kind q)) = rounding (kind q)) ∧
        ∀ p q, p ≤ q → (rounding (kind p)).atMost (rounding (kind q)) = true := by
  intro kind hkind
  have hround := round_kind hkind
  have hmap := mapInt_kind hkind
  refine ⟨fun q => ?_, fun q => ⟨?_, ?_, ?_⟩, fun rounding hrounding => ?_⟩
  · exact ⟨q.floor, roundEven q, q.ceil, hmap _ q, hround q, hmap _ q, floor_isGreatest q,
      roundEven_nearest q, ceil_isLeast q⟩
  · rw [negate_kind hkind, hround, hround, negate_kind hkind, roundEven_neg, Int.cast_neg]
  · rw [floor, hmap, hround, atMost_kind hkind]
    exact_mod_cast (roundEven_isRounding.between q).1
  · rw [ceiling, hmap, hround, atMost_kind hkind]
    exact_mod_cast (roundEven_isRounding.between q).2
  · obtain ⟨f, hf, heq⟩ : ∃ f, IsRounding f ∧ ∀ q, rounding (kind q) = kind (f q) := by
      simp only [List.mem_cons, List.not_mem_nil, or_false] at hrounding
      rcases hrounding with rfl | rfl | rfl
      · exact ⟨_, floor_isRounding, hmap _⟩
      · exact ⟨_, roundEven_isRounding, hround⟩
      · exact ⟨_, ceil_isRounding, hmap _⟩
    constructor
    · intro q
      rw [heq, heq, hf.intCast]
    · intro p q hpq
      rw [heq, heq, atMost_kind hkind]
      exact_mod_cast hf.mono hpq

/-- The half between `-4` and `-3`. -/
theorem rounding_laws_half :
    (inexact (-7 / 2)).round = inexact (-4) ∧
      (inexact (-7 / 2)).negate.round = (inexact (-4)).negate ∧
      (inexact (-4)).round = inexact (-4) ∧
      (inexact (-7 / 2)).ceiling.atMost (inexact (1 / 2)).ceiling = true := by
  obtain ⟨hnearest, hlaws, hroundings⟩ := rounding_laws inexact (by simp)
  obtain ⟨_, near, _, -, hround, -, -, hnear, -⟩ := hnearest (-7 / 2)
  have hfour : NearestEven (-7 / 2) (-4) :=
    .of_le (by norm_num) (by norm_num) fun _ => by decide
  rw [hnear.unique hfour, Int.cast_neg, Int.cast_ofNat] at hround
  obtain ⟨hidempotent, -⟩ := hroundings round (by simp)
  obtain ⟨-, hmono⟩ := hroundings ceiling (by simp)
  refine ⟨hround, ?_, ?_, hmono (-7 / 2) (1 / 2) (by norm_num)⟩
  · rw [(hlaws (-7 / 2)).1, hround]
  · rw [← hround, hidempotent]

end BeginningStudent.RealNumber
