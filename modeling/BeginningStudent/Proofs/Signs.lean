import BeginningStudent.Primitive.Operation
import BeginningStudent.Proofs.Comparison

/-!
# Signs

A real number is negative, zero or positive by the order of its value and zero
(`RealNumber.sign_by_value`). The predicates `negative?` and `zero?` answer as `<` and `=` do beside
the exact zero. `positive?` asks that neither of them holds, and so it answers as `>` does except on
NaN, which is positive but not greater than zero (`signs_by_comparison`).
-/

namespace BeginningStudent

namespace Binary64

variable {x : Binary64}

theorem isZero_iff_place : x.isZero = true ↔ x.place = 0 := by
  unfold isZero place
  rw [decide_eq_true_eq]
  split <;> omega

theorem endedValue_zero : endedValue 0 = rationalValue 0 := by
  unfold endedValue
  rw [if_neg (by decide), if_neg (by decide), placeValue_zero]

theorem cmp_endedValue_zero (hx : x.isNaN = false) :
    cmp (endedValue x.place) (rationalValue 0) = cmp x.place 0 := by
  rw [← endedValue_zero]
  exact endedValue_strictMonoOn.cmp_map_eq (place_bounds hx) (by decide)

end Binary64

namespace RealNumber

variable {a : RealNumber} {v : WithBot (WithTop ℚ)}

theorem compare_zero (ha : a.value? = some v) :
    a.compare (ofInt 0) = some (cmp v (Binary64.rationalValue 0)) := by
  rcases a.rational_or_float with ⟨q, hq, -⟩ | ⟨x, rfl⟩
  · obtain rfl := Option.some.inj (ha.symm.trans (value?_of_rational hq))
    rw [Binary64.rationalValue_strictMono.cmp_map_eq]
    exact compare_of_rational hq rfl
  · have hx : x.isNaN = false := isNaN_toFloat ha
    have hplace : (ofInt 0).toFloat.place = 0 := by decide +kernel
    obtain rfl := Option.some.inj (ha.symm.trans (Binary64.value?_eq hx))
    rw [compare_of_float (.inl ⟨x, rfl⟩) ha (value?_of_rational rfl), hplace,
      Binary64.cmp_endedValue_zero hx]
    rfl

/-- The predicates on a number that is not NaN ask for the order of its value and zero. -/
theorem sign_by_value (ha : a.value? = some v) :
    (a.isNegative = true ↔ v < Binary64.rationalValue 0) ∧
      (a.isZero = true ↔ v = Binary64.rationalValue 0) ∧
      (Operation.isPositive a = true ↔ Binary64.rationalValue 0 < v) := by
  have hsigns : (a.isNegative = true ↔ v < Binary64.rationalValue 0) ∧
      (a.isZero = true ↔ v = Binary64.rationalValue 0) := by
    rcases a.rational_or_float with ⟨q, hq, -⟩ | ⟨x, rfl⟩
    · obtain rfl := Option.some.inj (ha.symm.trans (value?_of_rational hq))
      rw [Binary64.rationalValue_strictMono.lt_iff_lt,
        Binary64.rationalValue_strictMono.injective.eq_iff]
      cases a <;> cases hq <;> simp [isNegative, isZero]
    · have hx : x.isNaN = false := isNaN_toFloat ha
      obtain rfl := Option.some.inj (ha.symm.trans (Binary64.value?_eq hx))
      have hplaces := Binary64.cmp_endedValue_zero hx
      rw [← cmp_eq_lt_iff, ← cmp_eq_eq_iff (Binary64.endedValue x.place), hplaces,
        cmp_eq_lt_iff, cmp_eq_eq_iff, ← Binary64.isZero_iff_place]
      simp [isNegative, isZero, Binary64.isNegative, hx]
  refine ⟨hsigns.1, hsigns.2, ?_⟩
  rw [Operation.isPositive, Bool.and_eq_true, Bool.not_eq_true', Bool.not_eq_true',
    Bool.eq_false_iff, Bool.eq_false_iff, Ne, hsigns.1, Ne, hsigns.2, not_lt]
  exact ⟨fun h => lt_of_le_of_ne h.1 (Ne.symm h.2), fun h => ⟨h.le, h.ne'⟩⟩

theorem sign_nan (ha : a.value? = none) :
    a.isNegative = false ∧ a.isZero = false ∧ Operation.isPositive a = true := by
  obtain ⟨x, rfl, hnan⟩ := isNaN_of_value?_none ha
  have hzero : x.isZero = false := by
    unfold Binary64.isNaN Binary64.exponentField at hnan
    unfold Binary64.isZero Binary64.magnitude Binary64.signWeight Binary64.leadingBit
    unfold Binary64.leadingBit at hnan
    simp only [decide_eq_true_eq, decide_eq_false_iff_not] at hnan ⊢
    omega
  simp [isNegative, isZero, Operation.isPositive, Binary64.isNegative, hnan, hzero]

theorem signs_by_compare (a : RealNumber) :
    a.isNegative = (a.compare (ofInt 0)).any (· == .lt) ∧
      a.isZero = a.numEq (ofInt 0) ∧
      (Operation.isPositive a = (a.compare (ofInt 0)).any (· == .gt) ↔ a.value? ≠ none) := by
  rw [numEq]
  cases ha : a.value? with
  | none =>
    obtain ⟨hnegative, hzero, hpositive⟩ := sign_nan ha
    rw [compare_nan (.inl ha), hnegative, hzero, hpositive]
    decide
  | some v =>
    obtain ⟨hnegative, hzero, hpositive⟩ := sign_by_value ha
    rw [compare_zero ha]
    refine ⟨?_, ?_, iff_of_true ?_ (Option.some_ne_none v)⟩
    · rw [Bool.eq_iff_iff, hnegative, ← cmp_eq_lt_iff, Option.any_some, beq_iff_eq]
    · rw [Bool.eq_iff_iff, hzero, ← cmp_eq_eq_iff v, beq_iff_eq, Option.some_inj]
    · rw [Bool.eq_iff_iff, hpositive, ← cmp_eq_gt_iff, Option.any_some, beq_iff_eq]

end RealNumber

/-! ### The primitives -/

/-- On every real number `negative?` answers as `<` does beside zero, and `zero?` as `=` does.
`positive?` answers as `>` does exactly when the number is not NaN. -/
theorem signs_by_comparison (r : RealNumber) :
    let x := Operation.ofReal r
    let zero := Operation.ofReal (.ofInt 0)
    Primitive.isNegative.apply [x] = Primitive.less.apply [x, zero] ∧
      Primitive.isZero.apply [x] = Primitive.numEq.apply [x, zero] ∧
      (Primitive.isPositive.apply [x] = Primitive.greater.apply [x, zero] ↔ r.value? ≠ none) := by
  intro x zero
  obtain ⟨hnegative, hzero, hpositive⟩ := r.signs_by_compare
  have hless (accepts : Ordering → Bool) : Operation.ordered accepts x zero [] =
      .ok (.boolean ((r.compare (.ofInt 0)).any accepts)) := rfl
  have hequal : Operation.numEq x zero [] = .ok (.boolean (r.numEq (.ofInt 0) && true)) := rfl
  refine ⟨?_, ?_, ?_⟩
  · show Except.ok (Value.boolean r.isNegative) = Operation.ordered (· == .lt) x zero []
    rw [hless, hnegative]
  · show Except.ok (Value.boolean r.isZero) = Operation.numEq x zero []
    rw [hequal, hzero, Bool.and_true]
  · show Except.ok (Value.boolean (Operation.isPositive r)) =
      Operation.ordered (· == .gt) x zero [] ↔ _
    rw [hless, ← hpositive]
    simp

/-- NaN is positive, but it is not greater than zero. -/
theorem positive_nan_not_greater :
    Primitive.isPositive.apply [Operation.ofReal (.float (.nan false))] = .ok (.boolean true) ∧
      Primitive.greater.apply
        [Operation.ofReal (.float (.nan false)), Operation.ofReal (.ofInt 0)] =
          .ok (.boolean false) :=
  ⟨rfl, rfl⟩

end BeginningStudent
