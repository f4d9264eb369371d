import BeginningStudent.Eval
import BeginningStudent.Proofs.Contagion
import BeginningStudent.Proofs.Powers

/-!
# Division by zero

The exact zero is the only number without an inverse (`Number.invert_error_iff`). Inexact zeros have
one, and the squared magnitude of a complex number is never the exact zero: it is exact only when
both parts are, and then the imaginary part is not zero. So the divisions of a chain and the powers
with negative exponents fail for the exact zero alone (`Number.fails_at_exact_zero`).
-/

namespace BeginningStudent

theorem RealNumber.invert_error_iff {r : RealNumber} {e : ArithmeticFault} :
    r.invert = .error e ↔ r = .ofInt 0 ∧ e = .divideByZero := by
  cases r with
  | exact q =>
    rw [invert, ofInt, Int.cast_zero, RealNumber.exact.injEq]
    split <;> simp_all [eq_comm]
  | inexact q | float x => simp [invert, ofInt]

namespace Number

variable {z w : Number} {e : ArithmeticFault}

/-! ### One division -/

theorem squaredMagnitude_ne_zero {re im : RealNumber} (him : im.isExactZero = false) :
    squaredMagnitude re im ≠ .ofInt 0 := by
  intro hzero
  have hexact : (squaredMagnitude re im).isExact = true := by
    rw [hzero]
    rfl
  simp only [squaredMagnitude, RealNumber.isExact_add, RealNumber.isExact_mul, Bool.and_self,
    Bool.and_eq_true] at hexact
  obtain ⟨p, hp⟩ := RealNumber.rational?_of_isExact hexact.1
  obtain ⟨q, hq⟩ := RealNumber.rational?_of_isExact hexact.2
  obtain rfl := RealNumber.eq_exact hexact.1 hp
  obtain rfl := RealNumber.eq_exact hexact.2 hq
  have hsum : p * p + q * q = 0 := RealNumber.exact.inj hzero
  have hq : q = 0 := by nlinarith [mul_self_nonneg p]
  simp [RealNumber.isExactZero, hq] at him

/-- The exact zero is the only number without an inverse. -/
theorem invert_error_iff (hw : w.Collapsed) :
    w.invert = .error e ↔ w = .ofInt 0 ∧ e = .divideByZero := by
  cases w with
  | real r => rw [invert, map_error, RealNumber.invert_error_iff, ofInt, Number.real.injEq]
  | complex re im =>
    have hmagnitude : squaredMagnitude re im ≠ .ofInt 0 := squaredMagnitude_ne_zero hw
    rw [invert, bind_error, RealNumber.invert_error_iff]
    simp [hmagnitude, ofInt, pure, Except.pure]

theorem div_error_iff (hw : w.Collapsed) :
    z.div w = .error e ↔ w = .ofInt 0 ∧ e = .divideByZero := by
  rw [div, map_error, invert_error_iff hw]

/-! ### Powers -/

theorem intPow_error_iff {n : ℤ} : z.intPow n = .error e ↔ n < 0 ∧ z.invert = .error e := by
  rw [intPow]
  split
  · next hn => simp [bind_error, hn, pure, Except.pure]
  · next hn => simp [bind_error, hn, pure, Except.pure]

/-- Only exact integers are exponents that can make a power fail. -/
theorem expt_error_iff (hz : z.Collapsed) :
    z.expt w = .error e ↔ (z = .ofInt 0 ∧ ∃ n < 0, w = .ofInt n) ∧ e = .divideByZero := by
  by_cases hint : ∃ n, w = .ofInt n
  · obtain ⟨n, rfl⟩ := hint
    have hnegative : (∃ k < 0, ofInt n = .ofInt k) ↔ n < 0 := by simp [ofInt, RealNumber.ofInt]
    rw [expt_ofInt, intPow_error_iff, invert_error_iff hz, hnegative]
    tauto
  · rw [expt_of_ne_ofInt fun n hn => hint ⟨n, hn⟩]
    constructor
    · rintro ⟨⟩
    · rintro ⟨⟨-, n, -, hn⟩, -⟩
      exact absurd ⟨n, hn⟩ hint

end Number

/-! ### Chains of divisions -/

namespace Operation

open Number

/-- A chain of divisions stops at the first divisor that is the exact zero, and only there. -/
theorem foldlM_div_zero (total : Number) {zs : List Number} (hzs : ∀ w ∈ zs, w.Collapsed) :
    Yields (fun _ => ofInt 0 ∉ zs) (fun fault => ofInt 0 ∈ zs ∧ fault = .divideByZero)
      ((zs.map Value.number).foldlM
        (fun total v => do orBlame v (total.div (← Argument.number v))) total) := by
  induction zs generalizing total with
  | nil => exact List.not_mem_nil
  | cons w zs ih =>
    obtain ⟨hw, hrest⟩ := List.forall_mem_cons.mp hzs
    rw [List.map_cons, List.foldlM_cons]
    have hstep : (do orBlame (.number w) (total.div (← Argument.number (.number w)))) =
        orBlame (.number w) (total.div w) := rfl
    rw [hstep]
    cases hdiv : total.div w with
    | error e =>
      obtain ⟨rfl, rfl⟩ := (div_error_iff hw).mp hdiv
      exact ⟨List.mem_cons_self, rfl⟩
    | ok next =>
      have hne : w ≠ ofInt 0 := by
        rintro rfl
        rw [(div_error_iff hw).mpr ⟨rfl, rfl⟩] at hdiv
        cases hdiv
      refine (ih next hrest).mono (fun _ h => ?_) fun fault h => ⟨List.mem_cons_of_mem _ h.1, h.2⟩
      exact List.not_mem_cons_of_ne_of_not_mem hne.symm h

end Operation

/-- A call of `/` with numbers gives a number or reports a division by zero, and the latter exactly
when the exact zero is one of the divisors. -/
theorem Value.call_div (globals : Bindings) (depth : ℕ) (z : Number) {w : Number}
    {zs : List Number} (hzs : ∀ x ∈ w :: zs, x.Collapsed) :
    Yields (fun v => .ofInt 0 ∉ w :: zs ∧ ∃ total, v = .number total)
      (fun err => .ofInt 0 ∈ w :: zs ∧ err.message = "/: division by zero")
      ((Value.primitive .div).call globals depth ((z :: w :: zs).map .number)) := by
  have hmessage : (EvalError.primitive .div .divideByZero).message = "/: division by zero" := by
    decide +kernel
  have hratio : Yields (fun v => .ofInt 0 ∉ w :: zs ∧ ∃ total, v = .number total)
      (fun fault => .ofInt 0 ∈ w :: zs ∧ fault = .divideByZero)
      (Operation.ratio (.number z) (.number w) (zs.map .number)) :=
    (Operation.foldlM_div_zero z hzs).bind fun total h => ⟨h, total, rfl⟩
  rw [call.eq_def]
  refine hratio.mapError ?_
  rintro fault ⟨hzero, rfl⟩
  exact ⟨hzero, hmessage⟩

namespace Number

/-- The exact zero is all that cannot be divided by. Division by any other number, a chain of
divisions by others, and any power but one of the exact zero with a negative exponent have a
result. -/
theorem fails_at_exact_zero :
    (∀ (z w : Number) (e : ArithmeticFault), w.Collapsed →
      (z.div w = .error e ↔ w = .ofInt 0 ∧ e = .divideByZero)) ∧
    (∀ (z w : Number) (zs : List Number) (globals : Bindings) (depth : ℕ),
      (∀ x ∈ w :: zs, x.Collapsed) →
      ((∃ err, (Value.primitive .div).call globals depth ((z :: w :: zs).map .number) =
          .error err ∧ err.message = "/: division by zero") ↔ .ofInt 0 ∈ w :: zs) ∧
      (.ofInt 0 ∉ w :: zs → ∃ total,
        (Value.primitive .div).call globals depth ((z :: w :: zs).map .number) =
          .ok (.number total))) ∧
    ∀ z w : Number, z.Collapsed →
      ((∃ e, z.expt w = .error e) ↔ z = .ofInt 0 ∧ ∃ n < 0, w = .ofInt n) := by
  refine ⟨fun z w e => div_error_iff, fun z w zs globals depth hzs => ?_, fun z w hz => ?_⟩
  · have hcall := Value.call_div globals depth z hzs
    generalize (Value.primitive .div).call globals depth _ = result at hcall
    cases result with
    | error err =>
      obtain ⟨hzero, hmessage⟩ := hcall
      exact ⟨⟨fun _ => hzero, fun _ => ⟨err, rfl, hmessage⟩⟩, fun hnone => absurd hzero hnone⟩
    | ok v =>
      obtain ⟨hnone, total, rfl⟩ := hcall
      refine ⟨⟨?_, fun hzero => absurd hzero hnone⟩, fun _ => ⟨total, rfl⟩⟩
      rintro ⟨err, herr, -⟩
      cases herr
  · simp [expt_error_iff hz]

/-- A zero with an inexact part divides like any other number. -/
theorem fails_at_exact_zero_inexact_zeros :
    let z : Number := .complex (.exact 0) (.inexact 0)
    let others : List Number := [.real (.inexact 0), .real (.float (.zero true))]
    z.Collapsed ∧ (∀ e, (ofInt 1).div z ≠ .error e) ∧
      (∃ err, (Value.primitive .div).call [] 0 ((.ofInt 1 :: z :: (others ++ [.ofInt 0])).map
        .number) = .error err ∧ err.message = "/: division by zero") ∧
      (∃ total, (Value.primitive .div).call [] 0 ((.ofInt 1 :: z :: others).map .number) =
        .ok (.number total)) ∧
      ∃ e, (ofInt 0).expt (.ofInt (-2)) = .error e := by
  intro z others
  have hz : z.Collapsed := by rfl
  have hne : z ≠ .ofInt 0 := by decide +kernel
  have hothers : ∀ x ∈ z :: others, x.Collapsed := by
    simp [z, others, Collapsed, RealNumber.isExactZero]
  have hall : ∀ x ∈ z :: (others ++ [.ofInt 0]), x.Collapsed := by
    simp [z, others, Collapsed, ofInt, RealNumber.isExactZero]
  obtain ⟨hdiv, hchain, hexpt⟩ := fails_at_exact_zero
  refine ⟨hz, fun e he => hne ((hdiv (.ofInt 1) z e hz).mp he).1,
    (hchain (.ofInt 1) z _ [] 0 hall).1.mpr (by simp),
    (hchain (.ofInt 1) z others [] 0 hothers).2 (by decide +kernel),
    (hexpt (.ofInt 0) (.ofInt (-2)) trivial).mpr ⟨rfl, -2, by decide, rfl⟩⟩

end Number

end BeginningStudent
