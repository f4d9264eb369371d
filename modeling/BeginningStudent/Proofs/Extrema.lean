import BeginningStudent.Primitive.Operation
import BeginningStudent.Proofs.Comparison

/-!
# Extrema

`max` and `min` go through their arguments and keep the best one so far. Comparison of a rational
and a float is not by value, but it never goes against the order of the nearest floats. So what is
kept in the end has the greatest or the least place among floats, whatever the order of the
arguments. NaN is in no order with any number: it is never kept instead of a number, and no number
is kept instead of it. The extremum is therefore NaN exactly when the first argument is NaN, and
apart from this the order of the arguments does not matter (`extrema_of_permutation`).
-/

namespace BeginningStudent

/-! ### Two directions -/

def AsFar {α : Type} [LinearOrder α] (better : Ordering) (x y : α) : Prop :=
  match better with
  | .lt => y ≤ x
  | _ => x ≤ y

namespace AsFar

variable {α : Type} [LinearOrder α] {better : Ordering} {x y z : α}

theorem refl (x : α) : AsFar better x x := by
  cases better <;> exact le_refl x

theorem trans (hxy : AsFar better x y) (hyz : AsFar better y z) : AsFar better x z := by
  cases better with
  | lt => exact le_trans hyz hxy
  | eq | gt => exact le_trans hxy hyz

theorem antisymm (hxy : AsFar better x y) (hyx : AsFar better y x) : x = y := by
  cases better with
  | lt => exact le_antisymm hyx hxy
  | eq | gt => exact le_antisymm hxy hyx

end AsFar

namespace RealNumber

/-! ### The number that is kept -/

def select (better : Ordering) (best next : RealNumber) : RealNumber :=
  if next.compare best = some better then next else best

def winner (better : Ordering) (first : RealNumber) (others : List RealNumber) : RealNumber :=
  others.foldl (select better) first

def extremum (better : Ordering) (first : RealNumber) (others : List RealNumber) : RealNumber :=
  if (first :: others).all isExact then winner better first others
  else (winner better first others).floated

variable {α : Type} [LinearOrder α] {better : Ordering} {a b first : RealNumber}
  {others : List RealNumber} {P : RealNumber → Prop} {key : RealNumber → α}

theorem select_cases (better : Ordering) (a b : RealNumber) :
    select better a b = a ∨ select better a b = b := by
  unfold select
  split
  · exact .inr rfl
  · exact .inl rfl

theorem winner_mem (better : Ordering) (first : RealNumber) (others : List RealNumber) :
    winner better first others ∈ first :: others := by
  induction others generalizing first with
  | nil => exact List.mem_cons_self
  | cons next others ih =>
    have hrest := ih (select better first next)
    rcases select_cases better first next with hsel | hsel
    · rw [hsel] at hrest
      rw [winner, List.foldl_cons, hsel]
      exact List.mem_cons.mpr ((List.mem_cons.mp hrest).imp_right (List.mem_cons_of_mem _))
    · rw [hsel] at hrest
      rw [winner, List.foldl_cons, hsel]
      exact List.mem_cons_of_mem _ hrest

/-- Of two numbers the better one is selected, by any key that comparison does not contradict. -/
theorem asFar_select (hbetter : better ≠ .eq) (ha : a.value? ≠ none) (hb : b.value? ≠ none)
    (hab : a.atMost b = true → key a ≤ key b) (hba : b.atMost a = true → key b ≤ key a) :
    AsFar better (key a) (key (select better a b)) ∧
      AsFar better (key b) (key (select better a b)) := by
  obtain ⟨u, hu⟩ := Option.ne_none_iff_exists'.mp ha
  obtain ⟨v, hv⟩ := Option.ne_none_iff_exists'.mp hb
  obtain ⟨o, hcompare, hswap⟩ := compare_swap hv hu
  unfold atMost at hab hba
  rw [hswap] at hab
  rw [hcompare] at hba
  unfold select
  rw [hcompare]
  by_cases h : o = better
  · subst h
    rw [if_pos rfl]
    refine ⟨?_, .refl _⟩
    cases o with
    | eq => exact absurd rfl hbetter
    | lt => exact hba rfl
    | gt => exact hab rfl
  · rw [if_neg (by simpa using h)]
    refine ⟨.refl _, ?_⟩
    cases better with
    | eq => exact absurd rfl hbetter
    | lt =>
      apply hab
      cases o <;> first | rfl | exact absurd rfl h
    | gt =>
      apply hba
      cases o <;> first | rfl | exact absurd rfl h

theorem winner_asFar (hbetter : better ≠ .eq) (hP : ∀ a, P a → a.value? ≠ none)
    (hkey : ∀ a b, P a → P b → a.atMost b = true → key a ≤ key b)
    (hskip : ∀ b ∈ others, ¬P b → ∀ a, P a → select better a b = a) (hfirst : P first) :
    P (winner better first others) ∧
      ∀ a ∈ first :: others, P a → AsFar better (key a) (key (winner better first others)) := by
  induction others generalizing first with
  | nil =>
    refine ⟨hfirst, ?_⟩
    intro a ha _
    rw [List.mem_singleton.mp ha]
    exact .refl _
  | cons next others ih =>
    have hskip' : ∀ b ∈ others, ¬P b → ∀ a, P a → select better a b = a :=
      fun b hb => hskip b (List.mem_cons_of_mem _ hb)
    rw [winner, List.foldl_cons]
    by_cases hnext : P next
    · obtain ⟨hbest, hlast⟩ := asFar_select hbetter (hP first hfirst) (hP next hnext)
        (hkey first next hfirst hnext) (hkey next first hnext hfirst)
      have hselect : P (select better first next) := by
        rcases select_cases better first next with h | h <;> rwa [h]
      obtain ⟨hwinner, hfar⟩ := ih hskip' hselect
      obtain ⟨hkept, hothers⟩ := List.forall_mem_cons.mp hfar
      refine ⟨hwinner, List.forall_mem_cons.mpr ⟨?_, List.forall_mem_cons.mpr ⟨?_, hothers⟩⟩⟩
      · intro _
        exact hbest.trans (hkept hselect)
      · intro _
        exact hlast.trans (hkept hselect)
    · rw [hskip next List.mem_cons_self hnext first hfirst]
      obtain ⟨hwinner, hfar⟩ := ih hskip' hfirst
      obtain ⟨hkept, hothers⟩ := List.forall_mem_cons.mp hfar
      refine ⟨hwinner, List.forall_mem_cons.mpr ⟨hkept, List.forall_mem_cons.mpr ⟨?_, hothers⟩⟩⟩
      intro h
      exact absurd h hnext

/-! ### NaN -/

theorem select_nan (h : a.value? = none ∨ b.value? = none) : select better a b = a := by
  rw [select, compare_nan h.symm, if_neg (by simp)]

theorem winner_of_nan (hfirst : first.value? = none) : winner better first others = first := by
  induction others with
  | nil => rfl
  | cons next others ih =>
    rw [winner, List.foldl_cons, select_nan (.inl hfirst)]
    exact ih

theorem value?_floated : a.floated.value? = none ↔ a.value? = none := by
  constructor
  · intro h
    by_contra hne
    obtain ⟨u, hu⟩ := Option.ne_none_iff_exists'.mp hne
    have hnan := isNaN_toFloat hu
    rw [Bool.eq_false_iff, Ne, ← Binary64.value?_eq_none] at hnan
    exact hnan h
  · intro h
    obtain ⟨x, rfl, -⟩ := isNaN_of_value?_none h
    exact h

/-! ### The extremum -/

theorem winner_of_number (hbetter : better ≠ .eq) (hfirst : first.value? ≠ none)
    (others : List RealNumber) :
    (winner better first others).value? ≠ none ∧
      ∀ a ∈ first :: others, a.value? ≠ none →
        AsFar better a.toFloat.place (winner better first others).toFloat.place := by
  refine winner_asFar hbetter (fun _ ha => ha) ?_ ?_ hfirst
  · intro a b ha hb hab
    obtain ⟨u, hu⟩ := Option.ne_none_iff_exists'.mp ha
    obtain ⟨v, hv⟩ := Option.ne_none_iff_exists'.mp hb
    exact place_le_of_atMost hu hv hab
  · intro b _ hb a _
    exact select_nan (.inr (not_not.mp hb))

theorem exists_exact (ha : a.isExact = true) : ∃ q, a = .exact q := by
  cases a with
  | exact q => exact ⟨q, rfl⟩
  | inexact | float => cases ha

theorem winner_of_exact (hbetter : better ≠ .eq)
    (hexact : ∀ a ∈ first :: others, a.isExact = true) :
    ∃ m, winner better first others = .exact m ∧
      ∀ q, .exact q ∈ first :: others → AsFar better q m := by
  have hkey : ∀ a b : RealNumber, a.isExact = true → b.isExact = true → a.atMost b = true →
      a.rational?.getD 0 ≤ b.rational?.getD 0 := by
    intro a b ha hb hab
    obtain ⟨p, rfl⟩ := exists_exact ha
    obtain ⟨q, rfl⟩ := exists_exact hb
    exact (atMost_iff (compare_of_rational rfl rfl)).mp hab
  obtain ⟨hwinner, hfar⟩ := winner_asFar (P := (·.isExact = true)) hbetter
    (by intro a ha; obtain ⟨p, rfl⟩ := exists_exact ha; simp [value?]) hkey
    (fun b hb hnot => absurd (hexact b (List.mem_cons_of_mem _ hb)) hnot)
    (hexact first List.mem_cons_self)
  obtain ⟨m, hm⟩ := exists_exact hwinner
  refine ⟨m, hm, ?_⟩
  intro q hq
  have h := hfar _ hq rfl
  rwa [hm] at h

/-! ### Lists of numbers -/

/-- Two answers that count as the same: equal numbers, or NaN twice. -/
def EqualOrNaN (a b : RealNumber) : Prop := a.numEq b = true ∨ a.value? = none ∧ b.value? = none

/-- Does the list begin with NaN? -/
def StartsWithNaN (as : List RealNumber) : Prop := ∃ a ∈ as.head?, a.value? = none

theorem extremum_isExact :
    (extremum better first others).isExact = true ↔ ∀ a ∈ first :: others, a.isExact = true := by
  rw [extremum, ← List.all_eq_true]
  split
  · next hall =>
    exact iff_of_true (List.all_eq_true.mp hall _ (winner_mem better first others)) hall
  · next hall => exact iff_of_false (by simp [floated, isExact]) hall

theorem extremum_value?_eq_none (hbetter : better ≠ .eq) :
    (extremum better first others).value? = none ↔ first.value? = none := by
  have hwinner : (winner better first others).value? = none ↔ first.value? = none := by
    by_cases hfirst : first.value? = none
    · rw [winner_of_nan hfirst]
    · exact iff_of_false (winner_of_number hbetter hfirst others).1 hfirst
  rw [extremum]
  split
  · exact hwinner
  · exact value?_floated.trans hwinner

theorem numEq_floated (ha : a.value? ≠ none) (hb : b.value? ≠ none)
    (hplace : a.toFloat.place = b.toFloat.place) : a.floated.numEq b.floated = true := by
  obtain ⟨u, hu⟩ := Option.ne_none_iff_exists'.mp (value?_floated.not.mpr ha)
  obtain ⟨v, hv⟩ := Option.ne_none_iff_exists'.mp (value?_floated.not.mpr hb)
  have hcompare : a.floated.compare b.floated = some (cmp a.toFloat.place b.toFloat.place) :=
    compare_of_float (.inl ⟨_, rfl⟩) hu hv
  rw [numEq, hcompare, hplace, cmp_self_eq_eq]
  rfl

/-- Unless NaN comes first, the order of the numbers does not matter. -/
theorem extremum_numEq (hbetter : better ≠ .eq) {first' : RealNumber} {others' : List RealNumber}
    (hperm : (first :: others).Perm (first' :: others')) (hfirst : first.value? ≠ none)
    (hfirst' : first'.value? ≠ none) :
    (extremum better first others).numEq (extremum better first' others') = true := by
  by_cases hall : ∀ a ∈ first :: others, a.isExact = true
  · have hall' : ∀ a ∈ first' :: others', a.isExact = true :=
      fun a ha => hall a (hperm.mem_iff.mpr ha)
    obtain ⟨m, hm, hfar⟩ := winner_of_exact hbetter hall
    obtain ⟨n, hn, hfar'⟩ := winner_of_exact hbetter hall'
    have hmem : exact m ∈ first :: others := hm ▸ winner_mem better first others
    have hmem' : exact n ∈ first' :: others' := hn ▸ winner_mem better first' others'
    have hmn : m = n :=
      (hfar' m (hperm.mem_iff.mp hmem)).antisymm (hfar n (hperm.mem_iff.mpr hmem'))
    rw [extremum, if_pos (List.all_eq_true.mpr hall), extremum, if_pos (List.all_eq_true.mpr hall'),
      hm, hn, hmn]
    exact numEq_refl rfl
  · have hall' : ¬∀ a ∈ first' :: others', a.isExact = true :=
      fun h => hall fun a ha => h a (hperm.mem_iff.mp ha)
    obtain ⟨hnumber, hfar⟩ := winner_of_number hbetter hfirst others
    obtain ⟨hnumber', hfar'⟩ := winner_of_number hbetter hfirst' others'
    have hplace := (hfar' _ (hperm.mem_iff.mp (winner_mem better first others)) hnumber).antisymm
      (hfar _ (hperm.mem_iff.mpr (winner_mem better first' others')) hnumber')
    rw [extremum, if_neg (List.all_eq_true.not.mpr hall), extremum,
      if_neg (List.all_eq_true.not.mpr hall')]
    exact numEq_floated hnumber hnumber' hplace

end RealNumber

/-! ### The primitives -/

namespace Operation

open RealNumber

theorem foldlM_select {better : Ordering}
    {step : RealNumber × Bool → Value → Except Fault (RealNumber × Bool)}
    (hstep : ∀ kept n, step kept (ofReal n) = .ok (select better kept.1 n, kept.2 && n.isExact))
    (others : List RealNumber) (kept : RealNumber × Bool) :
    (others.map ofReal).foldlM step kept =
      .ok (winner better kept.1 others, kept.2 && others.all isExact) := by
  induction others generalizing kept with
  | nil =>
    rw [List.all_nil, Bool.and_true]
    rfl
  | cons next others ih =>
    rw [List.map_cons, List.foldlM_cons, hstep, List.all_cons, ← Bool.and_assoc]
    exact ih (select better kept.1 next, kept.2 && next.isExact)

theorem extremum_ofReal (better : Ordering) (first : RealNumber) (others : List RealNumber) :
    extremum better (ofReal first) (others.map ofReal) =
      .ok (ofReal (RealNumber.extremum better first others)) :=
  bind_ok.mpr ⟨first, rfl,
    bind_ok.mpr ⟨_, foldlM_select (fun _ _ => rfl) others (first, first.isExact), rfl⟩⟩

end Operation

open Operation RealNumber

/-- What a primitive answers for real numbers as the best of them in a direction. -/
structure IsExtremum (p : Primitive) (better : Ordering) (as : List RealNumber) (a : RealNumber) :
    Prop where
  answer : p.apply (as.map ofReal) = .ok (ofReal a)
  isNaN_iff : a.value? = none ↔ StartsWithNaN as
  isExact_iff : a.isExact = true ↔ ∀ b ∈ as, b.isExact = true
  of_exact : (∀ b ∈ as, b.isExact = true) →
    a ∈ as ∧ ∃ m, a = .exact m ∧ ∀ q, .exact q ∈ as → AsFar better q m

/-- A primitive has an answer for numbers in either order, which is the same one unless NaN comes
first in one order only. -/
def OrderFree (p : Primitive) (better : Ordering) (as bs : List RealNumber) : Prop :=
  ∃ a b, IsExtremum p better as a ∧ IsExtremum p better bs b ∧
    (EqualOrNaN a b ↔ (StartsWithNaN as ↔ StartsWithNaN bs))

theorem startsWithNaN_cons {first : RealNumber} {others : List RealNumber} :
    StartsWithNaN (first :: others) ↔ first.value? = none := by
  simp [StartsWithNaN]

section
variable {p : Primitive} {better : Ordering}

theorem isExtremum (hp : p.operation = .atLeastOne (Operation.extremum better))
    (hbetter : better ≠ .eq) (first : RealNumber) (others : List RealNumber) :
    IsExtremum p better (first :: others) (RealNumber.extremum better first others) := by
  refine ⟨?_, ?_, extremum_isExact, ?_⟩
  · rw [Primitive.apply, hp]
    exact extremum_ofReal better first others
  · rw [startsWithNaN_cons]
    exact extremum_value?_eq_none hbetter
  · intro hall
    rw [RealNumber.extremum, if_pos (List.all_eq_true.mpr hall)]
    exact ⟨winner_mem better first others, winner_of_exact hbetter hall⟩

theorem orderFree (hp : p.operation = .atLeastOne (Operation.extremum better))
    (hbetter : better ≠ .eq) {as bs : List RealNumber} (hne : as ≠ []) (hperm : as.Perm bs) :
    OrderFree p better as bs := by
  have hne' : bs ≠ [] := fun h => hne (List.Perm.eq_nil (h ▸ hperm))
  obtain ⟨first, others, rfl⟩ := List.exists_cons_of_ne_nil hne
  obtain ⟨first', others', rfl⟩ := List.exists_cons_of_ne_nil hne'
  have ha := isExtremum hp hbetter first others
  have hb := isExtremum hp hbetter first' others'
  refine ⟨_, _, ha, hb, ?_⟩
  rw [EqualOrNaN, ha.isNaN_iff, hb.isNaN_iff, startsWithNaN_cons, startsWithNaN_cons]
  by_cases hfirst : first.value? = none
  · have hnan := ha.isNaN_iff.mpr (startsWithNaN_cons.mpr hfirst)
    rw [RealNumber.numEq, compare_nan (.inl hnan)]
    simp [hfirst]
  · by_cases hfirst' : first'.value? = none
    · have hnan := hb.isNaN_iff.mpr (startsWithNaN_cons.mpr hfirst')
      rw [RealNumber.numEq, compare_nan (.inr hnan)]
      simp [hfirst, hfirst']
    · exact iff_of_true (.inl (extremum_numEq hbetter hperm hfirst hfirst'))
        (iff_of_false hfirst hfirst')

end

/-- For every list of real numbers in any two orders `max` and `min` have answers. These are equal
or both NaN, unless NaN comes first in one of the orders only. An answer is inexact if and only if
one of the numbers is, and for exact numbers it is one of them that bounds the others. -/
theorem extrema_of_permutation {as bs : List RealNumber} (hne : as ≠ []) (hperm : as.Perm bs) :
    OrderFree .max .gt as bs ∧ OrderFree .min .lt as bs :=
  ⟨orderFree rfl (by decide) hne hperm, orderFree rfl (by decide) hne hperm⟩

/-- The integer `2^53 + 1` is equal to the float `2^53`, so either of the two may be kept. -/
theorem extrema_of_permutation_tie :
    let as : List RealNumber :=
      [.exact 9007199254740993, .float ⟨0x4340000000000000⟩, .exact 9007199254740992]
    ∃ a b, Primitive.max.apply (as.map ofReal) = .ok (ofReal a) ∧
      Primitive.max.apply (as.reverse.map ofReal) = .ok (ofReal b) ∧ EqualOrNaN a b := by
  intro as
  obtain ⟨⟨a, b, ha, hb, hagrees⟩, -⟩ :=
    @extrema_of_permutation as _ (List.cons_ne_nil _ _) as.reverse_perm.symm
  refine ⟨a, b, ha.answer, hb.answer, hagrees.mpr (iff_of_false ?_ ?_)⟩ <;>
    simp [StartsWithNaN, as, value?]

/-- NaN is kept where it comes first, and is passed over where a number comes first. -/
theorem max_nan_by_order :
    let nan : RealNumber := .float (.nan false)
    Primitive.max.apply [ofReal nan, ofReal (.ofInt 1)] = .ok (ofReal nan) ∧
      Primitive.max.apply [ofReal (.ofInt 1), ofReal nan] = .ok (ofReal (.float .one)) ∧
      ¬EqualOrNaN nan (.float .one) := by
  intro nan
  have hfirst : RealNumber.extremum .gt nan [.ofInt 1] = nan := by decide +kernel
  have hsecond : RealNumber.extremum .gt (.ofInt 1) [nan] = .float .one := by decide +kernel
  refine ⟨?_, ?_, ?_⟩
  · exact (extremum_ofReal .gt nan [.ofInt 1]).trans (by rw [hfirst])
  · exact (extremum_ofReal .gt (.ofInt 1) [nan]).trans (by rw [hsecond])
  · intro h
    rcases h with h | ⟨-, h⟩
    · exact absurd h (by decide +kernel)
    · obtain ⟨x, hx, hnan⟩ := isNaN_of_value?_none h
      cases hx
      exact absurd hnan (by decide +kernel)

end BeginningStudent
