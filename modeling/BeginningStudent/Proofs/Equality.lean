import BeginningStudent.Proofs.Comparison
import BeginningStudent.Proofs.Reached

/-!
# Equality of data

`Value.equal` compares data without floats by content (`Value.SameData`). It goes through the
fields of two instances only as far as both have them, so this rests on the invariant that every
instance a run reaches has as many fields as its type. On all these values it is an equivalence
relation.
-/

namespace BeginningStudent

/-! ### Numbers without floats -/

theorem RealNumber.numEq_iff {a b : RealNumber} {p q : ℚ} (ha : a.rational? = some p)
    (hb : b.rational? = some q) : a.numEq b = true ↔ p = q := by
  rw [numEq, compare_of_rational ha hb, beq_iff_eq, Option.some_inj, cmp_eq_eq_iff]

namespace Number

def FloatFree (z : Number) : Prop := ∀ x, z.re ≠ .float x ∧ z.im ≠ .float x

theorem FloatFree.value? {z : Number} (hz : z.FloatFree) : ∃ u, z.value? = some u := by
  have hrational : ∀ r : RealNumber, (∀ x, r ≠ .float x) → ∃ q, r.rational? = some q := by
    intro r hr
    cases r with
    | exact q | inexact q => exact ⟨q, rfl⟩
    | float x => exact absurd rfl (hr x)
  obtain ⟨p, hp⟩ := hrational z.re fun x => (hz x).1
  obtain ⟨q, hq⟩ := hrational z.im fun x => (hz x).2
  exact ⟨⟨p, q⟩, value?_eq_some.mpr ⟨hp, hq⟩⟩

theorem numEq_iff {z w : Number} {u v : GaussianRational} (hz : z.value? = some u)
    (hw : w.value? = some v) : z.numEq w = true ↔ u = v := by
  obtain ⟨hzre, hzim⟩ := value?_eq_some.mp hz
  obtain ⟨hwre, hwim⟩ := value?_eq_some.mp hw
  rw [numEq, Bool.and_eq_true, RealNumber.numEq_iff hzre hwre, RealNumber.numEq_iff hzim hwim]
  exact QuadraticAlgebra.ext_iff.symm

end Number

namespace Value

/-! ### The same data -/

/-- Is the value a procedure or a structure type? Equality does not look into these. -/
def isSealed : Value → Bool
  | .structType _ => true
  | v => v.procedureName?.isSome

/-- The values are data of one shape: numbers of one value, exact or not, the same strings, symbols
and booleans, pairs and instances of one type with the same data in them, or procedures and
structure types that are identical. -/
inductive SameData : Value → Value → Prop
  | number {z w u} (hz : z.value? = some u) (hw : w.value? = some u) :
    SameData (.number z) (.number w)
  | string {s} : SameData (.string s) (.string s)
  | symbol {s} : SameData (.symbol s) (.symbol s)
  | boolean {b} : SameData (.boolean b) (.boolean b)
  | empty : SameData .empty .empty
  | pair {a a' b b'} (ha : SameData a a') (hb : SameData b b') : SameData (.pair a b) (.pair a' b')
  | record {t fields fields'} (hn : fields.length = fields'.length)
    (hf : ∀ (i : Nat) v w, fields[i]? = some v → fields'[i]? = some w → SameData v w) :
    SameData (.record t fields) (.record t fields')
  | sealed {v w} (hv : v.isSealed = true) (h : v.identical? w = some true) : SameData v w

/-- No number in the data has a float component. What closures hold does not count. -/
inductive FloatFree : Value → Prop
  | number {z} (hz : z.FloatFree) : FloatFree (.number z)
  | pair {first rest} (hfirst : FloatFree first) (hrest : FloatFree rest) :
    FloatFree (.pair first rest)
  | record {t fields} (hf : ∀ v ∈ fields, FloatFree v) : FloatFree (.record t fields)
  | string {s} : FloatFree (.string s)
  | symbol {s} : FloatFree (.symbol s)
  | boolean {b} : FloatFree (.boolean b)
  | empty : FloatFree .empty
  | sealed {v} (hv : v.isSealed = true) : FloatFree v

variable {u v w : Value}

/-! ### Identity of procedures and structure types -/

theorem identical?_iff (hv : v.isSealed = true) : v.identical? w = some true ↔ v = w ∨
    ∃ code held code' held', v = .closure code held ∧ w = .closure code' held' ∧
      code.site = code'.site := by
  cases v with
  | closure code held =>
    cases w with
    | closure code' held' =>
      have hsite : (closure code held).identical? (closure code' held') = some true ↔
          code.site = code'.site := by simp [identical?, sameAtom]
      rw [hsite]
      constructor
      · exact fun h => .inr ⟨_, _, _, _, rfl, rfl, h⟩
      · rintro (h | ⟨_, _, _, _, h, h', hsite⟩)
        · cases h
          rfl
        · cases h
          cases h'
          exact hsite
    | _ => simp [identical?, sameAtom]
  | primitive | constructor | predicate | accessor | structType =>
    cases w <;> simp [identical?, sameAtom]
  | _ => cases hv

theorem identical?_symm (hv : v.isSealed = true) (h : v.identical? w = some true) :
    w.isSealed = true ∧ w.identical? v = some true := by
  rcases (identical?_iff hv).mp h with rfl | ⟨code, held, code', held', rfl, rfl, hsite⟩
  · exact ⟨hv, h⟩
  · exact ⟨rfl, (identical?_iff rfl).mpr (.inr ⟨_, _, _, _, rfl, rfl, hsite.symm⟩)⟩

theorem identical?_trans (hv : v.isSealed = true) (hvw : v.identical? w = some true)
    (hwu : w.identical? u = some true) : v.identical? u = some true := by
  rcases (identical?_iff hv).mp hvw with rfl | ⟨code, held, code', held', rfl, rfl, hsite⟩
  · exact hwu
  · rcases (identical?_iff rfl).mp hwu with rfl | ⟨_, _, code'', held'', hw, rfl, hsite'⟩
    · exact hvw
    · cases hw
      exact (identical?_iff rfl).mpr (.inr ⟨_, _, _, _, rfl, rfl, hsite.trans hsite'⟩)

/-! ### An equivalence relation -/

theorem SameData.refl (hv : v.FloatFree) : SameData v v := by
  induction hv with
  | number hz =>
    obtain ⟨u, hu⟩ := hz.value?
    exact .number hu hu
  | pair _ _ ihfirst ihrest => exact .pair ihfirst ihrest
  | record _ ih =>
    refine .record rfl fun i v w hv hw => ?_
    obtain rfl := Option.some.inj (hv.symm.trans hw)
    exact ih v (List.mem_of_getElem? hv)
  | string => exact .string
  | symbol => exact .symbol
  | boolean => exact .boolean
  | empty => exact .empty
  | sealed hv => exact .sealed hv ((identical?_iff hv).mpr (.inl rfl))

theorem SameData.symm (h : SameData v w) : SameData w v := by
  induction h with
  | number hz hw => exact .number hw hz
  | pair _ _ ihfirst ihrest => exact .pair ihfirst ihrest
  | record hn _ ih => exact .record hn.symm fun i v w hv hw => ih i w v hw hv
  | string => exact .string
  | symbol => exact .symbol
  | boolean => exact .boolean
  | empty => exact .empty
  | sealed hv h =>
    obtain ⟨hw, h'⟩ := identical?_symm hv h
    exact .sealed hw h'

theorem SameData.trans (hvw : SameData v w) (hwu : SameData w u) : SameData v u := by
  induction hvw generalizing u with
  | number hz hw =>
    cases hwu with
    | number hw' hu =>
      obtain rfl := Option.some.inj (hw.symm.trans hw')
      exact .number hz hu
    | sealed hv => cases hv
  | pair _ _ ihfirst ihrest =>
    cases hwu with
    | pair hfirst hrest => exact .pair (ihfirst hfirst) (ihrest hrest)
    | sealed hv => cases hv
  | @record t fields fields' hn _ ih =>
    cases hwu with
    | record hn' hf =>
      refine .record (hn.trans hn') fun i v u hv hu => ?_
      have hi : i < fields'.length := by
        rw [← hn]
        exact (List.getElem?_eq_some_iff.mp hv).1
      have hw := List.getElem?_eq_getElem hi
      exact ih i v _ hv hw (hf i _ u hw hu)
    | sealed hv => cases hv
  | string | symbol | boolean | empty => exact hwu
  | sealed hv h =>
    obtain ⟨hw, -⟩ := identical?_symm hv h
    cases hwu with
    | sealed _ h' => exact .sealed hv (identical?_trans hv h h')
    | _ => cases hw

/-! ### What equality decides -/

theorem equalAll_iff {vs ws : List Value} : equalAll vs ws = true ↔
    ∀ (i : Nat) v w, vs[i]? = some v → ws[i]? = some w → v.equal w = true := by
  induction vs generalizing ws with
  | nil => simp [equalAll]
  | cons v vs ih =>
    cases ws with
    | nil => simp [equalAll]
    | cons w ws =>
      rw [equalAll, Bool.and_eq_true, ih]
      constructor
      · rintro ⟨h, hrest⟩ i v' w' hv hw
        cases i with
        | zero =>
          cases hv
          cases hw
          exact h
        | succ i => exact hrest i v' w' hv hw
      · intro h
        exact ⟨h 0 v w rfl rfl, fun i v' w' hv hw => h (i + 1) v' w' hv hw⟩

theorem equal_sealed (hv : v.isSealed = true) : v.equal w = true ↔ v.identical? w = some true := by
  cases v with
  | closure | primitive | constructor | predicate | accessor | structType =>
    cases w <;> simp [equal, identical?]
  | _ => cases hv

theorem eq_of_equal (hv : v.isFlat = true) (hn : ∀ z, v ≠ .number z) (h : v.equal w = true) :
    v = w := by
  cases v with
  | number z => exact absurd rfl (hn z)
  | string | symbol | boolean | empty => cases w <;> simp_all [equal, sameAtom]
  | _ => cases hv

theorem SameData.equal (h : SameData v w) : v.equal w = true := by
  induction h with
  | number hz hw => rw [Value.equal, Number.numEq_iff hz hw]
  | pair _ _ ihfirst ihrest => rw [Value.equal, ihfirst, ihrest, Bool.and_self]
  | record _ _ ih => rw [Value.equal, beq_self_eq_true, Bool.true_and, equalAll_iff.mpr ih]
  | string | symbol | boolean => simp [Value.equal, sameAtom]
  | empty => rfl
  | sealed hv h => exact (equal_sealed hv).mpr h

/-- Equality decides whether values are the same data, if they have no floats. It does not compare
how many fields two instances of one type have. -/
theorem equal_iff (hv : v.FloatFree) (hw : w.FloatFree) (hvf : v.Filled) (hwf : w.Filled) :
    v.equal w = true ↔ SameData v w := by
  refine ⟨fun h => ?_, SameData.equal⟩
  induction hv generalizing w with
  | @number z hz =>
    cases w with
    | number y =>
      cases hw with
      | number hy =>
        obtain ⟨u, hu⟩ := hz.value?
        obtain ⟨u', hu'⟩ := hy.value?
        rw [equal, Number.numEq_iff hu hu'] at h
        subst h
        exact .number hu hu'
      | sealed hs => cases hs
    | _ => simp [equal] at h
  | @pair first rest _ _ ihfirst ihrest =>
    cases w with
    | pair a b =>
      obtain ⟨hfirst, hrest⟩ := hvf.pair_inv
      obtain ⟨ha, hb⟩ := hwf.pair_inv
      rw [equal, Bool.and_eq_true] at h
      cases hw with
      | pair ha' hb' => exact .pair (ihfirst ha' hfirst ha h.1) (ihrest hb' hrest hb h.2)
      | sealed hs => cases hs
    | _ => simp [equal] at h
  | @record t fields _ ih =>
    cases w with
    | record t' fields' =>
      obtain ⟨hn, hfields⟩ := hvf.record_inv
      obtain ⟨hn', hfields'⟩ := hwf.record_inv
      rw [equal, Bool.and_eq_true, beq_iff_eq] at h
      obtain ⟨rfl, h⟩ := h
      cases hw with
      | record hw =>
        refine .record (hn.trans hn'.symm) fun i v w hv hw' => ?_
        have hmem := List.mem_of_getElem? hv
        have hmem' := List.mem_of_getElem? hw'
        exact ih v hmem (hw w hmem') (hfields v hmem) (hfields' w hmem')
          (equalAll_iff.mp h i v w hv hw')
      | sealed hs => cases hs
    | _ => simp [equal] at h
  | string | symbol | boolean | empty =>
    obtain rfl := eq_of_equal rfl (by rintro z ⟨⟩) h
    exact .refl hw
  | sealed hv => exact .sealed hv ((equal_sealed hv).mp h)

/-- On all values without floats that a run reaches, equality is an equivalence relation: two values
are equal exactly when they are the same data. -/
theorem equal_is_equivalence (hu : u.Reached) (hv : v.Reached) (hw : w.Reached)
    (huf : u.FloatFree) (hvf : v.FloatFree) (hwf : w.FloatFree) :
    (u.equal v = true ↔ SameData u v) ∧ u.equal u = true ∧ u.equal v = v.equal u ∧
      (u.equal v = true → v.equal w = true → u.equal w = true) := by
  have huv := equal_iff huf hvf hu.filled hv.filled
  have hvu := equal_iff hvf huf hv.filled hu.filled
  have hvw := equal_iff hvf hwf hv.filled hw.filled
  refine ⟨huv, (SameData.refl huf).equal, ?_, fun h h' => ?_⟩
  · rw [Bool.eq_iff_iff, huv, hvu]
    exact ⟨SameData.symm, SameData.symm⟩
  · exact ((huv.mp h).trans (hvw.mp h')).equal

def exactAndInexact : List Command :=
  [.form (.defineStruct "p" ["x"]),
    .form (.define "a" (.call (.identifier "make-p") [.literal (.number (.real (.exact 1)))])),
    .form (.define "b" (.call (.identifier "make-p") [.literal (.number (.real (.inexact 1)))]))]

theorem equal_is_equivalence_exactness :
    let m := (Interpreter.start 1).after exactAndInexact
    ∃ v w, m.eval (.identifier "a") = .ok v ∧ m.eval (.identifier "b") = .ok w ∧
      v.identical? w = none ∧ SameData v w ∧ v.equal w = true ∧ w.equal v = true := by
  intro m
  have ha : m.eval (.identifier "a") =
      .ok (.record ⟨0, "p", ["x"]⟩ [.number (.real (.exact 1))]) := rfl
  have hb : m.eval (.identifier "b") =
      .ok (.record ⟨0, "p", ["x"]⟩ [.number (.real (.inexact 1))]) := rfl
  have hfree : ∀ r : RealNumber, (∀ x, r ≠ .float x) →
      (Value.record ⟨0, "p", ["x"]⟩ [.number (.real r)]).FloatFree := fun r hr =>
    .record (List.forall_mem_singleton.mpr (.number fun x => ⟨hr x, by rintro ⟨⟩⟩))
  have hva := Interpreter.eval_reached ha
  have hwb := Interpreter.eval_reached hb
  have hvf := hfree (.exact 1) (by rintro x ⟨⟩)
  have hwf := hfree (.inexact 1) (by rintro x ⟨⟩)
  obtain ⟨hsame, -, hcomm, -⟩ := equal_is_equivalence hva hwb hva hvf hwf hvf
  have h : equal (.record ⟨0, "p", ["x"]⟩ [.number (.real (.exact 1))])
      (.record ⟨0, "p", ["x"]⟩ [.number (.real (.inexact 1))]) = true := by decide +kernel
  exact ⟨_, _, ha, hb, rfl, hsame.mp h, h, hcomm ▸ h⟩

end Value
end BeginningStudent
