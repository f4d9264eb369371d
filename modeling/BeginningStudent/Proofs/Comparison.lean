import BeginningStudent.Proofs.GaussianRationals
import BeginningStudent.Proofs.NearestFloat

/-!
# Comparison of reals

Two rationals compare by value, whatever their exactness, and so do two floats. A rational and a
float compare by value, too, unless the float is the one that the rational is rounded to: these two
count as equal, also where their values differ. Comparison is therefore reflexive and symmetric, but
it is not transitive: two rationals that are rounded to one float are both equal to it
(`RealNumber.compare_values_or_rounds`).
-/

namespace BeginningStudent.RealNumber

def value? : RealNumber → Option (WithBot (WithTop ℚ))
  | .exact q | .inexact q => some (Binary64.rationalValue q)
  | .float x => x.value?

/-- The second number is the float that the first one, a rational, is rounded to. -/
def RoundsTo (a b : RealNumber) : Prop :=
  ∃ q x, a.rational? = some q ∧ b = .float x ∧ x.Nearest q

def atMost (a b : RealNumber) : Bool := (a.compare b).any (· != .gt)

variable {a b c : RealNumber} {p q : ℚ} {u v w : WithBot (WithTop ℚ)}

theorem rational_or_float (a : RealNumber) :
    (∃ q, a.rational? = some q ∧ a.toFloat = Binary64.ofRat q) ∨ ∃ x, a = .float x := by
  cases a with
  | exact q | inexact q => exact .inl ⟨q, rfl, rfl⟩
  | float x => exact .inr ⟨x, rfl⟩

theorem value?_of_rational (ha : a.rational? = some q) : a.value? = some (Binary64.rationalValue q) := by
  cases a <;> cases ha <;> rfl

theorem isNaN_toFloat (ha : a.value? = some u) : a.toFloat.isNaN = false := by
  cases a with
  | exact q | inexact q => exact Binary64.isNaN_ofRat q
  | float x =>
    rw [toFloat, Bool.eq_false_iff, Ne, ← Binary64.value?_eq_none]
    exact fun hnone => Option.some_ne_none u (ha.symm.trans hnone)

theorem isNaN_of_value?_none (ha : a.value? = none) : ∃ x, a = .float x ∧ x.isNaN = true := by
  cases a with
  | exact q | inexact q => cases ha
  | float x => exact ⟨x, rfl, Binary64.value?_eq_none.mp ha⟩

theorem compare_nan (h : a.value? = none ∨ b.value? = none) : a.compare b = none := by
  have hfloats {x y : Binary64} (hxy : x.isNaN = true ∨ y.isNaN = true) :
      Binary64.compare x y = none := by
    rw [Binary64.compare, if_pos (by simpa using hxy)]
  rcases h with h | h
  · obtain ⟨x, rfl, hx⟩ := isNaN_of_value?_none h
    exact hfloats (.inl hx)
  · obtain ⟨y, rfl, hy⟩ := isNaN_of_value?_none h
    cases a <;> exact hfloats (.inr hy)

/-! ### The two ways of comparison -/

theorem compareRat_eq (p q : ℚ) : compareRat p q = cmp p q := by
  unfold compareRat
  rcases lt_trichotomy p q with h | h | h
  · rw [if_pos h, (cmp_eq_lt_iff p q).mpr h]
  · rw [if_neg h.not_lt, if_pos h, (cmp_eq_eq_iff p q).mpr h]
  · rw [if_neg h.not_gt, if_neg h.ne', (cmp_eq_gt_iff p q).mpr h]

theorem compare_of_rational (ha : a.rational? = some p) (hb : b.rational? = some q) :
    a.compare b = some (cmp p q) := by
  rw [← compareRat_eq]
  cases a <;> cases b <;> cases ha <;> cases hb <;> rfl

theorem compare_of_float (hab : (∃ x, a = .float x) ∨ ∃ x, b = .float x)
    (ha : a.value? = some u) (hb : b.value? = some v) :
    a.compare b = some (cmp a.toFloat.place b.toFloat.place) := by
  have hcompare : a.compare b = Binary64.compare a.toFloat b.toFloat := by
    rcases hab with ⟨x, rfl⟩ | ⟨x, rfl⟩
    · rfl
    · cases a <;> rfl
  rw [hcompare, Binary64.compare, isNaN_toFloat ha, isNaN_toFloat hb, cmp_eq_compare]
  rfl

/-- Two numbers that are not NaN are in some order, and the other way round in the reverse one. -/
theorem compare_swap (ha : a.value? = some u) (hb : b.value? = some v) :
    ∃ o, a.compare b = some o ∧ b.compare a = some o.swap := by
  rcases a.rational_or_float with ⟨p, hp, -⟩ | ha'
  · rcases b.rational_or_float with ⟨q, hq, -⟩ | hb'
    · exact ⟨_, compare_of_rational hp hq, by rw [compare_of_rational hq hp, cmp_swap]⟩
    · exact ⟨_, compare_of_float (.inr hb') ha hb, by
        rw [compare_of_float (.inl hb') hb ha, cmp_swap]⟩
  · exact ⟨_, compare_of_float (.inl ha') ha hb, by
      rw [compare_of_float (.inr ha') hb ha, cmp_swap]⟩

theorem atMost_iff {α : Type} [LinearOrder α] {m n : α} (h : a.compare b = some (cmp m n)) :
    a.atMost b = true ↔ m ≤ n := by
  rw [atMost, h, Option.any_some, bne_iff_ne, Ne, cmp_eq_gt_iff, not_lt]

theorem numEq_iff_atMost (ha : a.value? = some u) (hb : b.value? = some v) :
    a.numEq b = true ↔ a.atMost b = true ∧ b.atMost a = true := by
  obtain ⟨o, hab, hba⟩ := compare_swap ha hb
  rw [numEq, atMost, atMost, hab, hba]
  cases o <;> decide

/-! ### Comparison and values -/

/-- A rational and a float are equal if the float is nearest, and else compare by value. -/
theorem compare_rational_float {x : Binary64} (ha : a.rational? = some q)
    (hx : x.value? = some v) :
    (x.Nearest q → a.compare (.float x) = some .eq) ∧
      (¬x.Nearest q → a.compare (.float x) = some (cmp (Binary64.rationalValue q) v)) := by
  have hfloat : a.toFloat = Binary64.ofRat q := by
    cases a <;> cases ha <;> rfl
  have hnan : x.isNaN = false := isNaN_toFloat (a := .float x) hx
  have hv : v = Binary64.endedValue x.place := by
    rw [Binary64.value?_eq hnan] at hx
    exact (Option.some.inj hx).symm
  rw [compare_of_float (.inr ⟨x, rfl⟩) (value?_of_rational ha) hx, hfloat, toFloat,
    Binary64.nearest_iff]
  refine ⟨fun h => by rw [h.2, cmp_self_eq_eq], fun h => congrArg some ?_⟩
  rcases lt_trichotomy (Binary64.ofRat q).place x.place with hlt | heq | hgt
  · rw [(cmp_eq_lt_iff _ _).mpr hlt, (cmp_eq_lt_iff _ _).mpr]
    exact hv ▸ Binary64.lt_endedValue hnan hlt
  · exact absurd ⟨hnan, heq.symm⟩ h
  · rw [(cmp_eq_gt_iff _ _).mpr hgt, (cmp_eq_gt_iff _ _).mpr]
    exact hv ▸ Binary64.endedValue_lt hnan hgt

theorem compare_of_roundsTo (hb : b.value? = some v) (hab : a.RoundsTo b) :
    a.compare b = some .eq := by
  obtain ⟨q, x, hq, rfl, hnear⟩ := hab
  exact (compare_rational_float hq hb).1 hnear

theorem compare_of_not_roundsTo (ha : a.value? = some u) (hb : b.value? = some v)
    (hab : ¬a.RoundsTo b) (hba : ¬b.RoundsTo a) : a.compare b = some (cmp u v) := by
  rcases a.rational_or_float with ⟨p, hp, -⟩ | ⟨x, rfl⟩
  · obtain rfl := Option.some.inj (ha.symm.trans (value?_of_rational hp))
    rcases b.rational_or_float with ⟨q, hq, -⟩ | ⟨y, rfl⟩
    · obtain rfl := Option.some.inj (hb.symm.trans (value?_of_rational hq))
      rw [compare_of_rational hp hq, Binary64.rationalValue_strictMono.cmp_map_eq]
    · exact (compare_rational_float hp hb).2 fun hnear => hab ⟨p, y, hp, rfl, hnear⟩
  · rcases b.rational_or_float with ⟨q, hq, -⟩ | ⟨y, rfl⟩
    · obtain rfl := Option.some.inj (hb.symm.trans (value?_of_rational hq))
      obtain ⟨o, hback, hcompare⟩ := compare_swap hb ha
      rw [(compare_rational_float hq ha).2 fun hnear => hba ⟨q, x, hq, rfl, hnear⟩] at hback
      rw [hcompare, ← Option.some.inj hback, cmp_swap]
    · exact Binary64.compare_values ha hb

/-! ### Laws of the order -/

/-- Comparison never goes against the order of the nearest floats. -/
theorem place_le_of_atMost (ha : a.value? = some u) (hb : b.value? = some v)
    (h : a.atMost b = true) : a.toFloat.place ≤ b.toFloat.place := by
  rcases a.rational_or_float with ⟨p, hp, hap⟩ | ha'
  · rcases b.rational_or_float with ⟨q, hq, hbq⟩ | hb'
    · rw [hap, hbq]
      exact Binary64.place_ofRat_mono ((atMost_iff (compare_of_rational hp hq)).mp h)
    · exact (atMost_iff (compare_of_float (.inr hb') ha hb)).mp h
  · exact (atMost_iff (compare_of_float (.inl ha') ha hb)).mp h

/-- Two rationals around a float are in order, or the float is the one that both are rounded to. -/
theorem atMost_around_float {x : Binary64} (ha : a.rational? = some p) (hx : x.isNaN = false)
    (hc : c.rational? = some q) (hax : a.toFloat.place ≤ x.place)
    (hxc : x.place ≤ c.toFloat.place) :
    a.atMost c = true ∨ a.RoundsTo (.float x) ∧ c.RoundsTo (.float x) := by
  have hap : a.toFloat = Binary64.ofRat p := by cases a <;> cases ha <;> rfl
  have hcq : c.toFloat = Binary64.ofRat q := by cases c <;> cases hc <;> rfl
  rw [hap] at hax
  rw [hcq] at hxc
  rcases le_or_gt p q with hpq | hqp
  · exact .inl ((atMost_iff (compare_of_rational ha hc)).mpr hpq)
  · have hback := Binary64.place_ofRat_mono hqp.le
    refine .inr ⟨⟨p, x, ha, rfl, Binary64.nearest_iff.mpr ⟨hx, ?_⟩⟩,
      ⟨q, x, hc, rfl, Binary64.nearest_iff.mpr ⟨hx, ?_⟩⟩⟩
    · exact le_antisymm (hxc.trans hback) hax
    · exact le_antisymm hxc (hback.trans hax)

theorem atMost_trans (ha : a.value? = some u) (hb : b.value? = some v) (hc : c.value? = some w)
    (hab : a.atMost b = true) (hbc : b.atMost c = true) :
    a.atMost c = true ∨ a.RoundsTo b ∧ c.RoundsTo b := by
  have hplace₁ := place_le_of_atMost ha hb hab
  have hplace₂ := place_le_of_atMost hb hc hbc
  rcases a.rational_or_float with ⟨p, hp, -⟩ | ha'
  · rcases c.rational_or_float with ⟨r, hr, -⟩ | hc'
    · rcases b.rational_or_float with ⟨q, hq, -⟩ | ⟨x, rfl⟩
      · have hpq := (atMost_iff (compare_of_rational hp hq)).mp hab
        have hqr := (atMost_iff (compare_of_rational hq hr)).mp hbc
        exact .inl ((atMost_iff (compare_of_rational hp hr)).mpr (hpq.trans hqr))
      · exact atMost_around_float hp (isNaN_toFloat hb) hr hplace₁ hplace₂
    · exact .inl ((atMost_iff (compare_of_float (.inr hc') ha hc)).mpr (hplace₁.trans hplace₂))
  · exact .inl ((atMost_iff (compare_of_float (.inl ha') ha hc)).mpr (hplace₁.trans hplace₂))

theorem numEq_trans (ha : a.value? = some u) (hb : b.value? = some v) (hc : c.value? = some w)
    (hab : a.numEq b = true) (hbc : b.numEq c = true) :
    a.numEq c = true ∨ a.RoundsTo b ∧ c.RoundsTo b := by
  obtain ⟨hab, hba⟩ := (numEq_iff_atMost ha hb).mp hab
  obtain ⟨hbc, hcb⟩ := (numEq_iff_atMost hb hc).mp hbc
  rcases atMost_trans ha hb hc hab hbc with hac | hround
  · rcases atMost_trans hc hb ha hcb hba with hca | ⟨hc', ha'⟩
    · exact .inl ((numEq_iff_atMost ha hc).mpr ⟨hac, hca⟩)
    · exact .inr ⟨ha', hc'⟩
  · exact .inr hround

theorem numEq_refl (ha : a.value? = some u) : a.numEq a = true := by
  obtain ⟨o, h, hswap⟩ := compare_swap ha ha
  rw [numEq, h, beq_iff_eq, Option.some_inj]
  cases o <;> simp_all

theorem numEq_comm (ha : a.value? = some u) (hb : b.value? = some v) : a.numEq b = b.numEq a := by
  rw [Bool.eq_iff_iff, numEq_iff_atMost ha hb, numEq_iff_atMost hb ha, and_comm]

/-- Numbers that are not NaN compare by value, except that a rational and the float that it is
rounded to are equal. Equality is reflexive and symmetric. It is transitive, as `<=` is, unless the
number in the middle is a float that the two others are rounded to. -/
theorem compare_values_or_rounds (ha : a.value? = some u) (hb : b.value? = some v)
    (hc : c.value? = some w) :
    (a.RoundsTo b ∨ b.RoundsTo a → a.compare b = some .eq) ∧
      (¬(a.RoundsTo b ∨ b.RoundsTo a) → a.compare b = some (cmp u v)) ∧
      (a.numEq a = true ∧ a.numEq b = b.numEq a) ∧
      (a.numEq b = true → b.numEq c = true →
        a.numEq c = true ∨ a.RoundsTo b ∧ c.RoundsTo b) ∧
      (a.atMost b = true → b.atMost c = true →
        a.atMost c = true ∨ a.RoundsTo b ∧ c.RoundsTo b) := by
  refine ⟨?_, ?_, ⟨numEq_refl ha, numEq_comm ha hb⟩, numEq_trans ha hb hc, atMost_trans ha hb hc⟩
  · rintro (h | h)
    · exact compare_of_roundsTo hb h
    · obtain ⟨o, hba, hab⟩ := compare_swap hb ha
      rw [compare_of_roundsTo ha h] at hba
      rw [hab, ← Option.some.inj hba]
      rfl
  · intro h
    exact compare_of_not_roundsTo ha hb (fun hab => h (.inl hab)) fun hba => h (.inr hba)

theorem value?_of_toRat? {x : Binary64} (hx : x.toRat? = some q) :
    (float x).value? = some (Binary64.rationalValue q) := by
  rw [value?, Binary64.value?, hx]

/-- `2^53` and `2^53 + 1` are both rounded to the float `2^53`. -/
theorem compare_values_or_rounds_twoPow53 :
    (exact 9007199254740993).RoundsTo (float ⟨0x4340000000000000⟩) ∧
      (exact 9007199254740992).RoundsTo (float ⟨0x4340000000000000⟩) :=
  have hvalue : (float ⟨0x4340000000000000⟩).value? =
      some (Binary64.rationalValue 9007199254740992) := value?_of_toRat? (by decide +kernel)
  ((compare_values_or_rounds rfl hvalue rfl).2.2.2.1 (by decide +kernel)
    (by decide +kernel)).resolve_left (by decide +kernel)

/-- Beyond `2^53` a float is equal to an integer that it does not denote, and equality is not
transitive. -/
theorem compare_beyond_precision :
    (exact 9007199254740993).value? = some (Binary64.rationalValue 9007199254740993) ∧
      (float ⟨0x4340000000000000⟩).value? = some (Binary64.rationalValue 9007199254740992) ∧
      (exact 9007199254740993).compare (float ⟨0x4340000000000000⟩) = some .eq ∧
      (float ⟨0x4340000000000000⟩).numEq (exact 9007199254740992) = true ∧
      (exact 9007199254740993).numEq (exact 9007199254740992) = false :=
  ⟨rfl, value?_of_toRat? (by decide +kernel), by decide +kernel, by decide +kernel,
    by decide +kernel⟩

end BeginningStudent.RealNumber
