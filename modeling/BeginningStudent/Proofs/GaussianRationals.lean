import BeginningStudent.Proofs.Primitives
import Mathlib.Algebra.Field.TransferInstance
import Mathlib.Algebra.QuadraticAlgebra.Basic
import Mathlib.Tactic.Linarith
import Mathlib.Tactic.Ring

/-!
# Arithmetic without floats

A number whose parts are rationals, exact or not, has a value among the Gaussian rationals, and the
operations on numbers compute the sum, the product and so on of these values. Exact numbers are
determined by their values, so they are the field of the Gaussian rationals under the operations on
numbers (`Number.arithmetic_is_gaussian`).
-/

namespace BeginningStudent

/-- The Gaussian rationals: a real and an imaginary part, where `i * i = -1`. -/
abbrev GaussianRational := QuadraticAlgebra ℚ (-1) 0

instance factSqNeNegOne : Fact (∀ r : ℚ, r ^ 2 ≠ -1 + 0 * r) where
  out r := by nlinarith [sq_nonneg r]

namespace RealNumber

def rational? : RealNumber → Option ℚ
  | .exact q | .inexact q => some q
  | .float _ => none

variable {a b : RealNumber} {p q : ℚ}

theorem rational?_add (ha : a.rational? = some p) (hb : b.rational? = some q) :
    (a.add b).rational? = some (p + q) := by
  cases a <;> cases b <;> cases ha <;> cases hb <;> rfl

theorem rational?_mul (ha : a.rational? = some p) (hb : b.rational? = some q) :
    (a.mul b).rational? = some (p * q) := by
  cases a <;> cases b <;> cases ha <;> cases hb <;> rfl

theorem rational?_negate (ha : a.rational? = some p) : a.negate.rational? = some (-p) := by
  cases a <;> cases ha <;> rfl

theorem rational?_markInexact (ha : a.rational? = some p) :
    a.markInexact.rational? = some p := by
  cases a <;> cases ha <;> rfl

theorem rational?_invert (ha : a.rational? = some p) (hp : p ≠ 0) :
    ∃ c, a.invert = .ok c ∧ c.rational? = some p⁻¹ := by
  cases a with
  | exact =>
    cases ha
    exact ⟨.exact p⁻¹, by rw [invert, if_neg hp], rfl⟩
  | inexact =>
    cases ha
    exact ⟨.inexact p⁻¹, by rw [invert, if_neg hp], rfl⟩
  | float => cases ha

theorem rational?_of_isExactZero (ha : a.isExactZero = true) : a.rational? = some 0 := by
  cases a with
  | exact q =>
    rw [isExactZero, beq_iff_eq] at ha
    rw [rational?, ha]
  | inexact | float => cases ha

theorem rational?_of_isExact (ha : a.isExact = true) : ∃ q, a.rational? = some q := by
  cases a with
  | exact q => exact ⟨q, rfl⟩
  | inexact | float => cases ha

theorem eq_exact (ha : a.isExact = true) (hp : a.rational? = some p) : a = .exact p := by
  cases a with
  | exact =>
    cases hp
    rfl
  | inexact | float => cases ha

theorem isExact_add : (a.add b).isExact = (a.isExact && b.isExact) := by
  cases a <;> cases b <;> rfl

theorem isExact_mul : (a.mul b).isExact = (a.isExact && b.isExact) := by
  cases a <;> cases b <;> rfl

theorem isExact_negate : a.negate.isExact = a.isExact := by cases a <;> rfl

theorem isExact_invert {c : RealNumber} (h : a.invert = .ok c) : c.isExact = a.isExact := by
  cases a with
  | exact q =>
    rw [invert] at h
    split at h
    · cases h
    · cases h
      rfl
  | inexact q =>
    cases h
    split <;> rfl
  | float x =>
    cases h
    rfl

end RealNumber

namespace Number

/-! ### Values -/

/-- The value of a number without floats. -/
def value? (z : Number) : Option GaussianRational := do
  return ⟨← z.re.rational?, ← z.im.rational?⟩

variable {z w : Number} {v u : GaussianRational}

theorem value?_eq_some : z.value? = some v ↔
    z.re.rational? = some v.re ∧ z.im.rational? = some v.im := by
  cases hre : z.re.rational? <;> cases him : z.im.rational? <;>
    simp [value?, hre, him, QuadraticAlgebra.ext_iff]

theorem value?_real {r : RealNumber} :
    (real r).value? = some v ↔ r.rational? = some v.re ∧ v.im = 0 := by
  rw [value?_eq_some]
  have hzero : (real r).im.rational? = some 0 := rfl
  simp [hzero, re, eq_comm]

theorem value?_ofParts {re im : RealNumber} {p q : ℚ} (hre : re.rational? = some p)
    (him : im.rational? = some q) : (ofParts re im).value? = some ⟨p, q⟩ := by
  unfold ofParts
  split
  · next hzero =>
    rw [RealNumber.rational?_of_isExactZero hzero] at him
    cases him
    exact value?_real.mpr ⟨hre, rfl⟩
  · exact value?_eq_some.mpr ⟨hre, him⟩

theorem value?_ofResult {re im : RealNumber} {p q : ℚ} (hre : re.rational? = some p)
    (him : im.rational? = some q) (exact : Bool) : (ofResult re im exact).value? = some ⟨p, q⟩ := by
  unfold ofResult
  split
  · exact value?_ofParts hre him
  · exact value?_ofParts (RealNumber.rational?_markInexact hre)
      (RealNumber.rational?_markInexact him)

theorem arithmetic_cases (z w : Number) : (∃ a b, z = .real a ∧ w = .real b) ∨
    z.add w = ofResult (z.re.add w.re) (z.im.add w.im) (z.isExact && w.isExact) ∧
      z.mul w = ofResult ((z.re.mul w.re).add (z.im.mul w.im).negate)
        ((z.re.mul w.im).add (z.im.mul w.re)) (z.isExact && w.isExact) := by
  cases z with
  | real a =>
    cases w with
    | real b => exact .inl ⟨a, b, rfl, rfl⟩
    | complex => exact .inr ⟨rfl, rfl⟩
  | complex => exact .inr ⟨rfl, rfl⟩

theorem value?_add (hz : z.value? = some v) (hw : w.value? = some u) :
    (z.add w).value? = some (v + u) := by
  rcases arithmetic_cases z w with ⟨a, b, rfl, rfl⟩ | ⟨hadd, -⟩
  · obtain ⟨ha, hv⟩ := value?_real.mp hz
    obtain ⟨hb, hu⟩ := value?_real.mp hw
    exact value?_real.mpr ⟨RealNumber.rational?_add ha hb, by simp [hv, hu]⟩
  · obtain ⟨hzre, hzim⟩ := value?_eq_some.mp hz
    obtain ⟨hwre, hwim⟩ := value?_eq_some.mp hw
    rw [hadd]
    exact value?_ofResult (RealNumber.rational?_add hzre hwre)
      (RealNumber.rational?_add hzim hwim) _

theorem value?_mul (hz : z.value? = some v) (hw : w.value? = some u) :
    (z.mul w).value? = some (v * u) := by
  rcases arithmetic_cases z w with ⟨a, b, rfl, rfl⟩ | ⟨-, hmul⟩
  · obtain ⟨ha, hv⟩ := value?_real.mp hz
    obtain ⟨hb, hu⟩ := value?_real.mp hw
    refine value?_real.mpr ⟨?_, by simp [hv, hu]⟩
    have hre : (v * u).re = v.re * u.re := by simp [hv]
    rw [hre]
    exact RealNumber.rational?_mul ha hb
  · obtain ⟨hzre, hzim⟩ := value?_eq_some.mp hz
    obtain ⟨hwre, hwim⟩ := value?_eq_some.mp hw
    have hproduct : v * u =
        ⟨v.re * u.re + -(v.im * u.im), v.re * u.im + v.im * u.re⟩ := by
      ext <;> simp
    rw [hmul, hproduct]
    exact value?_ofResult
      (RealNumber.rational?_add (RealNumber.rational?_mul hzre hwre)
        (RealNumber.rational?_negate (RealNumber.rational?_mul hzim hwim)))
      (RealNumber.rational?_add (RealNumber.rational?_mul hzre hwim)
        (RealNumber.rational?_mul hzim hwre)) _

theorem value?_negate (hz : z.value? = some v) : z.negate.value? = some (-v) := by
  cases z with
  | real a =>
    obtain ⟨ha, hv⟩ := value?_real.mp hz
    exact value?_real.mpr ⟨RealNumber.rational?_negate ha, by simp [hv]⟩
  | complex re im =>
    obtain ⟨hre, him⟩ := value?_eq_some.mp hz
    exact value?_ofParts (RealNumber.rational?_negate hre) (RealNumber.rational?_negate him)

theorem value?_sub (hz : z.value? = some v) (hw : w.value? = some u) :
    (z.sub w).value? = some (v - u) := by
  rw [sub_eq_add_neg]
  exact value?_add hz (value?_negate hw)

theorem rational?_squaredMagnitude {re im : RealNumber} (hre : re.rational? = some v.re)
    (him : im.rational? = some v.im) :
    (squaredMagnitude re im).rational? = some v.norm := by
  have hnorm : v.norm = v.re * v.re + v.im * v.im := by
    rw [QuadraticAlgebra.norm_def]
    ring
  rw [hnorm]
  exact RealNumber.rational?_add (RealNumber.rational?_mul hre hre)
    (RealNumber.rational?_mul him him)

theorem value?_invert (hw : w.value? = some u) (hu : u ≠ 0) :
    ∃ c, w.invert = .ok c ∧ c.value? = some u⁻¹ := by
  cases w with
  | real a =>
    obtain ⟨ha, him⟩ := value?_real.mp hw
    have hre : u.re ≠ 0 := fun hre => hu (QuadraticAlgebra.ext hre him)
    obtain ⟨c, hc, hvalue⟩ := RealNumber.rational?_invert ha hre
    have hone : u * ⟨u.re⁻¹, 0⟩ = 1 := by
      ext <;> simp [hre, him, QuadraticAlgebra.re_one, QuadraticAlgebra.im_one]
    rw [inv_eq_of_mul_eq_one_right hone]
    exact ⟨.real c, by rw [invert, hc]; rfl, value?_real.mpr ⟨hvalue, rfl⟩⟩
  | complex re im =>
    obtain ⟨hre, him⟩ : re.rational? = some u.re ∧ im.rational? = some u.im :=
      value?_eq_some.mp hw
    -- The inverse is the conjugate over the norm.
    have hnorm : u.norm ≠ 0 := fun h => hu (QuadraticAlgebra.norm_eq_zero_iff_eq_zero.mp h)
    obtain ⟨scale, hscale, hvalue⟩ :=
      RealNumber.rational?_invert (rational?_squaredMagnitude hre him) hnorm
    refine ⟨ofParts (re.mul scale) (im.negate.mul scale), by rw [invert, hscale]; rfl, ?_⟩
    have hinverse : u⁻¹ = ⟨u.re * u.norm⁻¹, -u.im * u.norm⁻¹⟩ := by
      ext <;> simp [QuadraticAlgebra.inv_def, mul_comm]
    rw [hinverse]
    exact value?_ofParts (RealNumber.rational?_mul hre hvalue)
      (RealNumber.rational?_mul (RealNumber.rational?_negate him) hvalue)

theorem value?_div (hz : z.value? = some v) (hw : w.value? = some u) (hu : u ≠ 0) :
    ∃ c, z.div w = .ok c ∧ c.value? = some (v / u) := by
  obtain ⟨c, hc, hvalue⟩ := value?_invert hw hu
  refine ⟨z.mul c, by rw [div, hc]; rfl, ?_⟩
  rw [div_eq_mul_inv]
  exact value?_mul hz hvalue

/-! ### Exact numbers -/

theorem isExact_parts (z : Number) : z.isExact = (z.re.isExact && z.im.isExact) := by
  cases z with
  | real r => exact (Bool.and_true _).symm
  | complex re im => rfl

theorem isExact_ofParts {re im : RealNumber} :
    (ofParts re im).isExact = (re.isExact && im.isExact) := by
  unfold ofParts
  split
  · next hzero =>
    have him : im.isExact = true := by cases im <;> first | rfl | cases hzero
    simp [isExact, him]
  · rfl

theorem isExact_ofResult {re im : RealNumber} {exact : Bool} :
    (ofResult re im exact).isExact = (exact && (re.isExact && im.isExact)) := by
  have hmark (r : RealNumber) : r.markInexact.isExact = false := by cases r <;> rfl
  cases exact <;> simp [ofResult, isExact_ofParts, hmark]

theorem isExact_add : (z.add w).isExact = (z.isExact && w.isExact) := by
  rcases arithmetic_cases z w with ⟨a, b, rfl, rfl⟩ | ⟨hadd, -⟩
  · exact RealNumber.isExact_add
  · rw [hadd, isExact_ofResult, RealNumber.isExact_add, RealNumber.isExact_add, isExact_parts z,
      isExact_parts w]
    grind

theorem isExact_mul : (z.mul w).isExact = (z.isExact && w.isExact) := by
  rcases arithmetic_cases z w with ⟨a, b, rfl, rfl⟩ | ⟨-, hmul⟩
  · exact RealNumber.isExact_mul
  · rw [hmul, isExact_ofResult]
    simp only [RealNumber.isExact_add, RealNumber.isExact_mul, RealNumber.isExact_negate,
      isExact_parts z, isExact_parts w]
    grind

theorem isExact_negate : z.negate.isExact = z.isExact := by
  cases z with
  | real a => exact RealNumber.isExact_negate
  | complex re im =>
    rw [negate, isExact_ofParts, RealNumber.isExact_negate, RealNumber.isExact_negate]
    rfl

theorem isExact_invert {c : Number} (h : w.invert = .ok c) : c.isExact = w.isExact := by
  cases w with
  | real a =>
    obtain ⟨r, hr, rfl⟩ := map_ok.mp h
    exact RealNumber.isExact_invert hr
  | complex re im =>
    obtain ⟨scale, hscale, h⟩ := bind_ok.mp h
    cases h
    -- The scale has the exactness of both parts together.
    have hmagnitude : scale.isExact = (re.isExact && im.isExact) := by
      simp [RealNumber.isExact_invert hscale, squaredMagnitude, RealNumber.isExact_add,
        RealNumber.isExact_mul]
    rw [isExact_ofParts, RealNumber.isExact_mul, RealNumber.isExact_mul,
      RealNumber.isExact_negate, hmagnitude, isExact]
    grind

def ofValue (v : GaussianRational) : Number := ofParts (.exact v.re) (.exact v.im)

theorem value?_ofValue (v : GaussianRational) : (ofValue v).value? = some v :=
  value?_ofParts rfl rfl

theorem isExact_ofValue (v : GaussianRational) : (ofValue v).isExact = true := isExact_ofParts

theorem value?_of_isExact (hz : z.isExact = true) : ∃ v, z.value? = some v := by
  rw [isExact_parts, Bool.and_eq_true] at hz
  obtain ⟨p, hp⟩ := RealNumber.rational?_of_isExact hz.1
  obtain ⟨q, hq⟩ := RealNumber.rational?_of_isExact hz.2
  exact ⟨⟨p, q⟩, value?_eq_some.mpr ⟨hp, hq⟩⟩

theorem eq_ofValue (hz : z.isExact = true) (hc : z.Collapsed) (hv : z.value? = some v) :
    z = ofValue v := by
  cases z with
  | real a =>
    obtain ⟨ha, him⟩ := value?_real.mp hv
    rw [RealNumber.eq_exact hz ha, ofValue, ofParts, him]
    rfl
  | complex re im =>
    obtain ⟨hre, him⟩ := Bool.and_eq_true_iff.mp hz
    obtain ⟨hvre, hvim⟩ : re.rational? = some v.re ∧ im.rational? = some v.im :=
      value?_eq_some.mp hv
    rw [RealNumber.eq_exact him hvim] at hc ⊢
    rw [RealNumber.eq_exact hre hvre, ofValue, ofParts, if_neg ((Bool.not_eq_true _).mpr hc)]

end Number

/-- An exact number without an imaginary part that is the exact zero. -/
def ExactNumber : Type := {z : Number // z.isExact = true ∧ z.Collapsed}

namespace ExactNumber

open Number

/-- The exact numbers are the Gaussian rationals. -/
def equiv : ExactNumber ≃ GaussianRational where
  toFun a := a.1.value?.get (Option.isSome_iff_exists.mpr (value?_of_isExact a.2.1))
  invFun v := ⟨ofValue v, isExact_ofValue v, collapsed_ofParts _ _⟩
  left_inv a := Subtype.ext (eq_ofValue a.2.1 a.2.2 (Option.some_get _).symm).symm
  right_inv v := by simp [value?_ofValue]

theorem value?_equiv (a : ExactNumber) : a.1.value? = some (equiv a) := (Option.some_get _).symm

theorem eq_of_value? {a : ExactNumber} {z : Number} (hz : z.isExact = true) (hc : z.Collapsed)
    (hv : z.value? = some (equiv a)) : a.1 = z := by
  rw [eq_ofValue hz hc hv, ← eq_ofValue a.2.1 a.2.2 a.value?_equiv]

/-- The field of the exact numbers. Its operations are those on numbers (`val_add`, `val_mul`, ...). -/
instance : Field ExactNumber := equiv.field

variable {a b : ExactNumber}

theorem val_zero : (0 : ExactNumber).1 = .ofInt 0 := rfl

theorem val_one : (1 : ExactNumber).1 = .ofInt 1 := rfl

theorem val_add : (a + b).1 = a.1.add b.1 := by
  have hvalue : equiv (a + b) = equiv a + equiv b := equiv.apply_symm_apply _
  refine eq_of_value? ?_ (collapsed_add _ _) ?_
  · rw [isExact_add, a.2.1, b.2.1]
    rfl
  · rw [hvalue]
    exact value?_add a.value?_equiv b.value?_equiv

theorem val_mul : (a * b).1 = a.1.mul b.1 := by
  have hvalue : equiv (a * b) = equiv a * equiv b := equiv.apply_symm_apply _
  refine eq_of_value? ?_ (collapsed_mul _ _) ?_
  · rw [isExact_mul, a.2.1, b.2.1]
    rfl
  · rw [hvalue]
    exact value?_mul a.value?_equiv b.value?_equiv

theorem val_neg : (-a).1 = a.1.negate := by
  have hvalue : equiv (-a) = -equiv a := equiv.apply_symm_apply _
  refine eq_of_value? ?_ (collapsed_negate _) ?_
  · rw [isExact_negate, a.2.1]
  · rw [hvalue]
    exact value?_negate a.value?_equiv

theorem val_sub : (a - b).1 = a.1.sub b.1 := by
  rw [sub_eq_add_neg, val_add, val_neg]
  rfl

theorem invert_val (hb : b ≠ 0) : b.1.invert = .ok b⁻¹.1 := by
  have hzero : equiv (0 : ExactNumber) = 0 := equiv.apply_symm_apply _
  have hvalue : equiv b⁻¹ = (equiv b)⁻¹ := equiv.apply_symm_apply _
  have hne : equiv b ≠ 0 := fun h => hb (equiv.injective (h.trans hzero.symm))
  obtain ⟨c, hc, hcvalue⟩ := value?_invert b.value?_equiv hne
  have hcollapsed := collapsed_invert b.1
  rw [hc] at hcollapsed ⊢
  rw [eq_of_value? ((isExact_invert hc).trans b.2.1) hcollapsed (hvalue ▸ hcvalue)]

theorem div_val (hb : b ≠ 0) : a.1.div b.1 = .ok (a / b).1 := by
  rw [div, invert_val hb, div_eq_mul_inv, val_mul]
  rfl

end ExactNumber

namespace Number

/-- The operations on numbers without floats compute in the Gaussian rationals. Every Gaussian
rational is the value of one exact number, and the exact numbers are a field under the same
operations. -/
theorem arithmetic_is_gaussian :
    (∀ {z w : Number} {v u : GaussianRational}, z.value? = some v → w.value? = some u →
      (z.add w).value? = some (v + u) ∧ (z.sub w).value? = some (v - u) ∧
      (z.mul w).value? = some (v * u) ∧ z.negate.value? = some (-v) ∧
      (u ≠ 0 → (∃ c, w.invert = .ok c ∧ c.value? = some u⁻¹) ∧
        ∃ c, z.div w = .ok c ∧ c.value? = some (v / u))) ∧
    (∀ z : Number, z.isExact = true → ∃ v, z.value? = some v) ∧
    (∀ v, ∃! z : Number, (z.isExact = true ∧ z.Collapsed) ∧ z.value? = some v) ∧
    (0 : ExactNumber).1 = ofInt 0 ∧ (1 : ExactNumber).1 = ofInt 1 ∧
    (∀ a b : ExactNumber, (a + b).1 = a.1.add b.1 ∧ (a - b).1 = a.1.sub b.1 ∧
      (a * b).1 = a.1.mul b.1 ∧ (-a).1 = a.1.negate) ∧
    ∀ a b : ExactNumber, b ≠ 0 →
      b.1.invert = .ok b⁻¹.1 ∧ a.1.div b.1 = .ok (a / b).1 ∧ (a.1.mul b.1).div b.1 = .ok a.1 := by
  refine ⟨fun hz hw => ?_, fun z => value?_of_isExact, fun v => ?_, ExactNumber.val_zero,
    ExactNumber.val_one, fun a b => ?_, fun a b hb => ?_⟩
  · exact ⟨value?_add hz hw, value?_sub hz hw, value?_mul hz hw, value?_negate hz,
      fun hu => ⟨value?_invert hw hu, value?_div hz hw hu⟩⟩
  · refine ⟨ofValue v, ⟨⟨isExact_ofValue v, collapsed_ofParts _ _⟩, value?_ofValue v⟩, ?_⟩
    rintro z ⟨⟨hz, hc⟩, hv⟩
    exact eq_ofValue hz hc hv
  · exact ⟨ExactNumber.val_add, ExactNumber.val_sub, ExactNumber.val_mul, ExactNumber.val_neg⟩
  · refine ⟨ExactNumber.invert_val hb, ExactNumber.div_val hb, ?_⟩
    rw [← ExactNumber.val_mul, ExactNumber.div_val hb, mul_div_cancel_right₀ a hb]

/-- Numbers with one exact and one inexact part each, and the exact imaginary unit. -/
theorem arithmetic_is_gaussian_units :
    let z : Number := .complex (.exact 1) (.inexact 2)
    let w : Number := .complex (.inexact (1 / 2)) (.exact (-1))
    let i : ExactNumber := ⟨.complex (.ofInt 0) (.ofInt 1), rfl, rfl⟩
    let v : GaussianRational := ⟨1, 2⟩
    let u : GaussianRational := ⟨1 / 2, -1⟩
    z.value? = some v ∧ w.value? = some u ∧ (z.mul w).value? = some (v * u) ∧ u ≠ 0 ∧
      (∃ c, z.div w = .ok c ∧ c.value? = some (v / u)) ∧ i ≠ 0 ∧
      (i.1.mul i.1).div i.1 = .ok i.1 := by
  intro z w i v u
  have hz : z.value? = some v := rfl
  have hw : w.value? = some u := rfl
  have hu : u ≠ 0 := fun h => by simpa [u] using congrArg QuadraticAlgebra.im h
  have hi : i ≠ 0 := fun h => by cases congrArg Subtype.val h
  obtain ⟨hvalues, -, -, -, -, -, hfield⟩ := arithmetic_is_gaussian
  obtain ⟨-, -, hmul, -, hdiv⟩ := hvalues hz hw
  exact ⟨hz, hw, hmul, hu, (hdiv hu).2, hi, (hfield i i hi).2.2⟩

end Number
end BeginningStudent
