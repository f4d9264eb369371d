import BeginningStudent.Proofs.GaussianRationals

/-!
# Exactness of results

One inexact operand makes the whole result of an operation inexact: a sum, a difference, a product
or a quotient is exact when all operands are, and has no exact part when one of them is not. This
holds for two numbers, real or complex, with parts of any kinds, and for the primitives on any list
of two or more numbers (`Number.exactness_spreads`).
-/

namespace BeginningStudent

theorem RealNumber.invert_yields (r : RealNumber) :
    Yields (fun _ => True) (· = .divideByZero) r.invert := by
  cases r with
  | exact q =>
    rw [invert]
    split
    · exact rfl
    · trivial
  | inexact | float => trivial

namespace Number

def parts : Number → List RealNumber
  | .real r => [r]
  | .complex re im => [re, im]

/-- A number with an inexact part has no exact one. -/
def Uniform (z : Number) : Prop := z.isExact = false → ∀ r ∈ z.parts, r.isExact = false

/-- The result is exact when all operands are, and no part of it is when one of them is not. -/
structure Inherits (operands : List Number) (result : Number) : Prop where
  exact_iff : result.isExact = true ↔ ∀ z ∈ operands, z.isExact = true
  uniform : result.Uniform

variable {z w : Number}

/-! ### Two operands -/

theorem uniform_real (r : RealNumber) : (real r).Uniform := by
  intro h
  simpa [parts, isExact] using h

theorem uniform_ofResult {re im : RealNumber} {exact : Bool}
    (h : exact = true → re.isExact = true ∧ im.isExact = true) :
    (ofResult re im exact).Uniform := by
  cases exact with
  | true =>
    intro hresult
    obtain ⟨hre, him⟩ := h rfl
    rw [isExact_ofResult, hre, him] at hresult
    cases hresult
  | false =>
    intro _
    cases re <;> cases im <;> simp [ofResult, ofParts, RealNumber.markInexact,
      RealNumber.isExactZero, parts, RealNumber.isExact]

theorem exact_parts (h : (z.isExact && w.isExact) = true) :
    (z.re.isExact = true ∧ z.im.isExact = true) ∧ w.re.isExact = true ∧ w.im.isExact = true := by
  rw [isExact_parts z, isExact_parts w] at h
  simpa only [Bool.and_eq_true] using h

theorem uniform_add (z w : Number) : (z.add w).Uniform := by
  rcases arithmetic_cases z w with ⟨a, b, rfl, rfl⟩ | ⟨hadd, -⟩
  · exact uniform_real _
  · rw [hadd]
    refine uniform_ofResult fun h => ?_
    obtain ⟨⟨hzre, hzim⟩, hwre, hwim⟩ := exact_parts h
    simp [RealNumber.isExact_add, hzre, hzim, hwre, hwim]

theorem uniform_mul (z w : Number) : (z.mul w).Uniform := by
  rcases arithmetic_cases z w with ⟨a, b, rfl, rfl⟩ | ⟨-, hmul⟩
  · exact uniform_real _
  · rw [hmul]
    refine uniform_ofResult fun h => ?_
    obtain ⟨⟨hzre, hzim⟩, hwre, hwim⟩ := exact_parts h
    simp [RealNumber.isExact_add, RealNumber.isExact_mul, RealNumber.isExact_negate, hzre, hzim,
      hwre, hwim]

theorem inherits_add (z w : Number) : Inherits [z, w] (z.add w) :=
  ⟨by simp [isExact_add], uniform_add z w⟩

theorem inherits_mul (z w : Number) : Inherits [z, w] (z.mul w) :=
  ⟨by simp [isExact_mul], uniform_mul z w⟩

theorem inherits_sub (z w : Number) : Inherits [z, w] (z.sub w) :=
  ⟨by simp [sub, isExact_add, isExact_negate], uniform_add z _⟩

theorem invert_yields (w : Number) :
    Yields (fun c => c.isExact = w.isExact) (· = .divideByZero) w.invert := by
  have hfault : Yields (fun _ => True) (· = .divideByZero) w.invert := by
    cases w with
    | real r => exact (RealNumber.invert_yields r).map fun _ _ => trivial
    | complex re im => exact (RealNumber.invert_yields _).bind fun _ _ => trivial
  cases h : w.invert with
  | error e =>
    rw [h] at hfault
    exact hfault
  | ok c => exact isExact_invert h

/-- A quotient inherits the exactness of its operands when there is one. Otherwise the fault is a
division by zero. -/
theorem inherits_div (z w : Number) : Yields (Inherits [z, w]) (· = .divideByZero) (z.div w) :=
  (invert_yields w).map fun c hc => ⟨by simp [isExact_mul, hc], uniform_mul z c⟩

/-! ### Lists of operands -/

variable {operands : List Number} {total : Number}

theorem Inherits.concat (h : Inherits operands total) {result : Number}
    (hresult : Inherits [total, w] result) : Inherits (operands ++ [w]) result where
  exact_iff := by simp [hresult.exact_iff, h.exact_iff, or_imp, forall_and]
  uniform := hresult.uniform

theorem inherits_foldl {op : Number → Number → Number} (hop : ∀ z w, Inherits [z, w] (op z w))
    (h : Inherits operands total) (zs : List Number) :
    Inherits (operands ++ zs) (zs.foldl op total) := by
  induction zs generalizing operands total with
  | nil => simpa using h
  | cons w zs ih => simpa using ih (h.concat (hop total w))

def Inherited (operands : List Number) (v : Value) : Prop :=
  ∃ total, v = .number total ∧ Inherits operands total

end Number

namespace Operation

open Number

theorem foldlM_number (op : Number → Number → Number) (total : Number) (zs : List Number) :
    (zs.map Value.number).foldlM (fun total v => op total <$> Argument.number v) total =
      .ok (zs.foldl op total) := by
  induction zs generalizing total with
  | nil => rfl
  | cons w zs ih => exact ih (op total w)

theorem accumulate_inherits {op : Number → Number → Number}
    (hop : ∀ z w, Inherits [z, w] (op z w)) (z w : Number) (zs : List Number) :
    Yields (Inherited (z :: w :: zs)) (fun _ => False)
      (accumulate op (.number z) ((w :: zs).map .number)) := by
  have haccumulate : accumulate op (.number z) ((w :: zs).map .number) =
      .ok (.number ((w :: zs).foldl op z)) :=
    bind_ok.mpr ⟨z, rfl, bind_ok.mpr ⟨_, foldlM_number op z (w :: zs), rfl⟩⟩
  rw [haccumulate]
  exact ⟨_, rfl, inherits_foldl hop (hop z w) zs⟩

theorem orBlame_div (z w : Number) :
    Yields (Inherits [z, w]) (· = .divideByZero) (orBlame (.number w) (z.div w)) := by
  have hdiv := inherits_div z w
  cases h : z.div w with
  | ok c =>
    rw [h] at hdiv
    exact hdiv
  | error e =>
    rw [h] at hdiv
    cases hdiv
    exact rfl

theorem foldlM_div {operands : List Number} {total : Number} (h : Inherits operands total)
    (zs : List Number) :
    Yields (Inherits (operands ++ zs)) (· = .divideByZero)
      ((zs.map Value.number).foldlM
        (fun total v => do orBlame v (total.div (← Argument.number v))) total) := by
  induction zs generalizing operands total with
  | nil =>
    rw [List.append_nil]
    exact h
  | cons w zs ih =>
    refine (orBlame_div total w).bind fun next hnext => ?_
    simpa using ih (h.concat hnext)

theorem ratio_inherits (z w : Number) (zs : List Number) :
    Yields (Inherited (z :: w :: zs)) (· = .divideByZero)
      (ratio (.number z) (.number w) (zs.map .number)) :=
  ((orBlame_div z w).bind fun _ hnext => foldlM_div hnext zs).bind fun total htotal =>
    ⟨total, rfl, htotal⟩

end Operation

abbrev Primitive.Spreads (p : Primitive) (zs : List Number) (E : Fault → Prop) : Prop :=
  Yields (Number.Inherited zs) E (p.apply (zs.map .number))

/-- Results are exact when all operands are, and have no exact part when one of them is not. Only a
division can fail, and only as a division by zero. -/
theorem Number.exactness_spreads :
    (∀ z w : Number, Inherits [z, w] (z.add w) ∧ Inherits [z, w] (z.sub w) ∧
      Inherits [z, w] (z.mul w) ∧ Yields (Inherits [z, w]) (· = .divideByZero) (z.div w)) ∧
    ∀ (z w : Number) (zs : List Number),
      Primitive.add.Spreads (z :: w :: zs) (fun _ => False) ∧
      Primitive.sub.Spreads (z :: w :: zs) (fun _ => False) ∧
      Primitive.mul.Spreads (z :: w :: zs) (fun _ => False) ∧
      Primitive.div.Spreads (z :: w :: zs) (· = .divideByZero) := by
  constructor
  · intro z w
    exact ⟨inherits_add z w, inherits_sub z w, inherits_mul z w, inherits_div z w⟩
  · intro z w zs
    exact ⟨Operation.accumulate_inherits inherits_add z w zs,
      Operation.accumulate_inherits inherits_sub z w zs,
      Operation.accumulate_inherits inherits_mul z w zs, Operation.ratio_inherits z w zs⟩

/-- The exact part of one operand becomes inexact, although the other operand is exact. -/
example : (Number.complex (.exact 1) (.inexact 2)).add (.ofInt 1) =
    .complex (.inexact 2) (.inexact 2) := by decide +kernel

end BeginningStudent
