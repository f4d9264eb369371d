import BeginningStudent.Primitive.Operation
import BeginningStudent.Proofs.IntegerDivision
import BeginningStudent.Proofs.LiteralGrammar
import BeginningStudent.Proofs.ShortestDecimals

/-!
# Numbers read back from their texts

`number->string` writes a real number without its marker. The text is always a literal of a real
with the same nearest float. A text with a point is a float, so an exact number is read from three
kinds of texts only: those of exact integers, those of fractions `n/d`, and texts of floats that are
integers but are written without a point. The last are not the texts of the number that is read
(`read_back`).
-/

namespace BeginningStudent

/-! ### Floats by sign and magnitude -/

namespace Binary64

variable {x : Binary64} {n : ℕ} {q : ℚ}

theorem parts_ofSignBits (hn : n < signWeight) (negative : Bool) :
    (ofSignBits negative n).signBit = negative ∧ (ofSignBits negative n).magnitude = n := by
  unfold signBit magnitude
  rw [toNat_bits_ofSignBits hn]
  cases negative
  · exact ⟨decide_eq_false (by simpa using hn), Nat.mod_eq_of_lt hn⟩
  · refine ⟨decide_eq_true (by simp), ?_⟩
    rw [if_pos rfl, Nat.add_mod_left]
    exact Nat.mod_eq_of_lt hn

theorem ofSignBits_parts (x : Binary64) : ofSignBits x.signBit x.magnitude = x := by
  have hbits : (if x.signBit = true then signWeight + x.magnitude else x.magnitude) =
      x.bits.toNat := by
    have hlt := x.bits.toNat_lt
    unfold signBit magnitude signWeight leadingBit
    split_ifs with h <;> simp only [decide_eq_true_eq] at h <;> omega
  rw [ofSignBits, hbits, UInt64.ofNat_toNat]

theorem neg_ofSignBits (hn : n < signWeight) : -ofSignBits false n = ofSignBits true n := by
  obtain ⟨hsign, hmagnitude⟩ := parts_ofSignBits hn false
  show ofSignBits (!signBit _) (magnitude _) = _
  rw [hsign, hmagnitude]
  rfl

theorem ofRat_neg (hq : 0 < q) : ofRat (-q) = -ofRat q := by
  obtain ⟨k, -, hk⟩ := nearestBits_spec q.num.natAbs q.den_pos
  have hbits : nearestBits q.num.natAbs q.den < signWeight := by
    rw [hk]
    exact (min_le_right _ _).trans_lt (by decide)
  unfold ofRat
  rw [Rat.neg_num, Rat.neg_den, Int.natAbs_neg, decide_eq_true (neg_lt_zero.mpr hq),
    decide_eq_false hq.not_gt, neg_ofSignBits hbits]

theorem isFinite_iff_magnitude : x.isFinite = true ↔ x.magnitude < 2047 * leadingBit := by
  rw [isFinite, decide_eq_true_eq]
  unfold exponentField magnitude signWeight leadingBit
  omega

theorem eq_infinity (hx : x.isNaN = false) (hf : x.isFinite = false) :
    x = infinity x.signBit := by
  have hmagnitude : x.magnitude = 2047 * leadingBit := by
    rw [isNaN, decide_eq_false_iff_not] at hx
    rw [isFinite, decide_eq_false_iff_not] at hf
    unfold exponentField fraction magnitude signWeight leadingBit at *
    omega
  rw [infinity, ← hmagnitude, ofSignBits_parts]

theorem toRat?_signed (hf : x.isFinite = true) :
    x.toRat? = some (if x.signBit then -gridValue x.magnitude else gridValue x.magnitude) := by
  rw [toRat?_eq, if_pos hf, placeValue_place]

theorem toInt?_eq_some {n : ℤ} : x.toInt? = some n ↔ x.toRat? = some (n : ℚ) :=
  RealNumber.toInt?_eq_some_iff (a := .float x)

theorem isFinite_of_toInt? {n : ℤ} (h : x.toInt? = some n) : x.isFinite = true := by
  have hrat := toInt?_eq_some.mp h
  rw [toRat?_eq, Option.ite_none_right_eq_some] at hrat
  exact hrat.1

theorem gridValue_of_toInt? {n : ℤ} (h : x.toInt? = some n) :
    gridValue x.magnitude = n.natAbs := by
  have hsigned := toRat?_signed (isFinite_of_toInt? h)
  have hvalue := Option.some.inj (hsigned.symm.trans (toInt?_eq_some.mp h))
  have hnonneg : 0 ≤ gridValue x.magnitude := by
    rw [← gridValue_zero]
    exact gridValue_strictMono.monotone (Nat.zero_le _)
  rw [Nat.cast_natAbs, Int.cast_abs, ← hvalue]
  split
  · rw [abs_neg, abs_of_nonneg hnonneg]
  · rw [abs_of_nonneg hnonneg]

theorem toInt?_of_isZero (h : x.isZero = true) : x.toInt? = some 0 := by
  have hmagnitude : x.magnitude = 0 := of_decide_eq_true h
  have hf : x.isFinite = true := by
    rw [isFinite_iff_magnitude, hmagnitude]
    decide
  rw [toInt?_eq_some, toRat?_signed hf, hmagnitude, gridValue_zero]
  simp

theorem toInt?_iff_magnitude (hf : x.isFinite = true) :
    (∃ n, x.toInt? = some n) ↔ ∃ b : ℕ, gridValue x.magnitude = b := by
  constructor
  · intro ⟨n, hn⟩
    exact ⟨_, gridValue_of_toInt? hn⟩
  · intro ⟨b, hb⟩
    refine ⟨if x.signBit then -b else b, toInt?_eq_some.mpr ?_⟩
    rw [toRat?_signed hf, hb]
    split <;> simp

end Binary64

/-! ### Decimal texts as literals -/

namespace Literal

open Decimal

variable {m : Magnitude} {t : List Char}

theorem digitsValue_append_zeros (ds : List Char) (n : ℕ) :
    digitsValue (ds ++ List.replicate n '0') = digitsValue ds * 10 ^ n := by
  show Nat.ofDigitChars 10 (ds ++ List.replicate n '0') 0 = Nat.ofDigitChars 10 ds 0 * 10 ^ n
  rw [Nat.ofDigitChars_append, Nat.ofDigitChars_replicate_zero, mul_comm]

theorem digitsValue_zeros_append (n : ℕ) (ds : List Char) :
    digitsValue (List.replicate n '0' ++ ds) = digitsValue ds := by
  show Nat.ofDigitChars 10 (List.replicate n '0' ++ ds) 0 = Nat.ofDigitChars 10 ds 0
  rw [Nat.ofDigitChars_append, Nat.ofDigitChars_replicate_zero, mul_zero]

theorem isDigit_zeros (n : ℕ) : ∀ c ∈ List.replicate n '0', c.isDigit = true := by
  intro c hc
  rw [List.eq_of_mem_replicate hc]
  rfl

theorem positional_integer (c : ℕ) {k : ℤ} (hk : 0 ≤ k) :
    (Magnitude.integer (c * 10 ^ k.toNat)).SpelledBy (positional c k) := by
  have hdigits : Digits (natText c ++ List.replicate k.toNat '0') :=
    ⟨List.append_ne_nil_of_left_ne_nil (natText_ne_nil c) _,
      List.forall_mem_append.mpr ⟨isDigit_natText c, isDigit_zeros _⟩⟩
  unfold positional
  rw [if_pos hk]
  rw [← digitsValue_natText c, ← digitsValue_append_zeros, digitsValue_natText]
  exact .integer hdigits

theorem positional_decimal (c : ℕ) {k : ℤ} (hk : k < 0) :
    (Magnitude.decimal c (-k).toNat 0).SpelledBy (positional c k) := by
  unfold positional
  rw [if_neg (by omega)]
  extract_lets places padded
  have hlength : places < padded.length := by
    rw [List.length_append, List.length_replicate]
    omega
  have hdigits : ∀ c ∈ padded, c.isDigit = true :=
    List.forall_mem_append.mpr ⟨isDigit_zeros _, isDigit_natText c⟩
  have hvalue : digitsValue padded = c := by
    rw [digitsValue_zeros_append, digitsValue_natText]
  have hplaces : (padded.drop (padded.length - places)).length = places := by
    rw [List.length_drop]
    omega
  have hwhole : Digits (padded.take (padded.length - places)) := by
    refine ⟨List.ne_nil_of_length_pos ?_, fun d hd => hdigits d (List.mem_of_mem_take hd)⟩
    rw [List.length_take]
    omega
  have hrest : ∀ d ∈ padded.drop (padded.length - places), d.isDigit = true :=
    fun d hd => hdigits d (List.mem_of_mem_drop hd)
  have hspelled := Magnitude.SpelledBy.wholeDecimal hwhole hrest .absent
  rwa [List.take_append_drop, hvalue, hplaces, List.append_nil] at hspelled

theorem whole_decimal (n : ℕ) :
    (Magnitude.decimal (n * 10) 1 0).SpelledBy (natText n ++ ['.', '0']) := by
  have hvalue := digitsValue_append_zeros (natText n) 1
  rw [digitsValue_natText, pow_one] at hvalue
  rw [← hvalue]
  exact .wholeDecimal (digits_natText n) (isDigit_zeros 1) .absent

theorem denote_decimal (digits places : ℕ) :
    Magnitude.denote none (.decimal digits places 0) =
      .ok (.float (.ofDecimal digits (-places))) := by
  show Except.ok (RealNumber.float (decimalFloat digits places 0)) = _
  have hexponent : readExponent (0 : ℤ).natAbs = 0 := rfl
  rw [decimalFloat, hexponent, if_neg (lt_irrefl 0), Nat.cast_zero, zero_sub]

/-- The minus of a negative number. -/
def minus (negative : Bool) : List Char := if negative then ['-'] else []

theorem signIfAny_minus (negative : Bool) : SignIfAny negative (minus negative) := by
  cases negative
  · exact .absent
  · exact .present .minus

end Literal

namespace RealNumber

open Literal Decimal

variable {m : Magnitude} {t : List Char} {x : Binary64} {y : RealNumber}

/-- The text is a literal of the real number. -/
def SpelledBy (y : RealNumber) (t : List Char) : Prop := number? t = some (.ok (.real y))

theorem spelledBy_signed (negative : Bool) (h : m.SpelledBy t) (hm : m.denote none = .ok y) :
    SpelledBy (if negative then y.negate else y) (minus negative ++ t) := by
  refine number?_iff.mpr ⟨none, _, .unmarked (.real (.unsigned (signIfAny_minus negative) h)), ?_⟩
  rw [Shape.denote, Signed.denote, hm]
  rfl

theorem spelledBy_special {s : List Char} (h : Special x s) : SpelledBy (.float x) s :=
  number?_iff.mpr ⟨none, _, .unmarked (.real (.special h)), rfl⟩

/-- A literal of the magnitude of a float, behind the sign of the float. -/
theorem spelledBy_float (h : m.SpelledBy t)
    (hm : m.denote none = .ok (.float (.ofSignBits false x.magnitude))) :
    SpelledBy (.float x) (minus x.signBit ++ t) := by
  have hspelled := spelledBy_signed x.signBit h hm
  have hlt : x.magnitude < Binary64.signWeight := Nat.mod_lt _ (by decide)
  have hsigned : (if x.signBit then negate (.float (.ofSignBits false x.magnitude))
      else .float (.ofSignBits false x.magnitude)) = float x := by
    conv_rhs => rw [← Binary64.ofSignBits_parts x]
    cases x.signBit with
    | false => rfl
    | true => exact congrArg float (Binary64.neg_ofSignBits hlt)
  rwa [hsigned] at hspelled

theorem spelledBy_integer {l : ℕ} (h : (Magnitude.integer l).SpelledBy t) (hl : 0 < l)
    (hround : Binary64.ofRat l = .ofSignBits false x.magnitude) :
    ∃ n : ℤ, SpelledBy (.ofInt n) (minus x.signBit ++ t) ∧ Binary64.ofInt n = x := by
  have hspelled := spelledBy_signed x.signBit h rfl
  have hlt : x.magnitude < Binary64.signWeight := Nat.mod_lt _ (by decide)
  cases hsign : x.signBit with
  | false =>
    rw [hsign] at hspelled
    refine ⟨l, hspelled, ?_⟩
    rw [Binary64.ofInt, Int.cast_natCast, hround, ← hsign, Binary64.ofSignBits_parts]
  | true =>
    rw [hsign] at hspelled
    refine ⟨-l, ?_, ?_⟩
    · rw [ofInt, Int.cast_neg, Int.cast_natCast]
      exact hspelled
    · rw [Binary64.ofInt, Int.cast_neg, Int.cast_natCast, Binary64.ofRat_neg (by exact_mod_cast hl),
        hround, Binary64.neg_ofSignBits hlt, ← hsign, Binary64.ofSignBits_parts]

/-! ### Texts of floats -/

theorem floatText_eq {n c : ℕ} {k : ℤ} (hn : x.magnitude = n + 1)
    (h : (gridInterval (n + 1)).shortest = (c, k)) :
    floatText x = minus x.signBit ++ positional c k := by
  have hsignificand : x.significand ≠ 0 := by
    rw [Binary64.significand_eq, hn]
    exact (gridSignificand_pos n.succ_pos).ne'
  have hinterval : roundingInterval x.significand x.exponent = gridInterval (n + 1) := by
    rw [Binary64.significand_eq, Binary64.exponent_eq, hn]
    rfl
  simp only [floatText, hsignificand, if_false, hinterval, h]
  rfl

/-- The positional text of a float is a literal of the float, or of an integer that is rounded to it
where the float is an integer itself. -/
theorem spelledBy_floatText (hf : x.isFinite = true) (hz : x.isZero = false) :
    x.toInt? = none ∧ SpelledBy (.float x) (floatText x) ∨
      (∃ n, x.toInt? = some n) ∧
        ∃ n : ℤ, SpelledBy (.ofInt n) (floatText x) ∧ Binary64.ofInt n = x := by
  obtain ⟨n, hn⟩ := Nat.exists_eq_succ_of_ne_zero (of_decide_eq_false hz)
  have hbound := Binary64.isFinite_iff_magnitude.mp hf
  rw [hn] at hbound
  rcases hshortest : (gridInterval (n + 1)).shortest with ⟨c, k⟩
  obtain ⟨hc, hdecimal, hround⟩ := ofDecimal_shortest hbound hshortest
  have hinteger : (∃ b, x.toInt? = some b) ↔ 0 ≤ k := by
    rw [Binary64.toInt?_iff_magnitude hf, hn, shortest_integral_iff hbound hshortest]
  rw [floatText_eq hn hshortest]
  rcases le_or_gt 0 k with hk | hk
  · refine .inr ⟨hinteger.mpr hk, spelledBy_integer (positional_integer c hk) (by positivity) ?_⟩
    rw [hn, ← hround]
    obtain ⟨l, rfl⟩ := Int.eq_ofNat_of_zero_le hk
    push_cast
    rw [zpow_natCast, Int.toNat_natCast]
  · have hnone : x.toInt? = none := by
      rw [Option.eq_none_iff_forall_ne_some]
      exact fun b hb => absurd (hinteger.mp ⟨b, hb⟩) (not_le.mpr hk)
    refine .inl ⟨hnone, spelledBy_float (positional_decimal c hk) ?_⟩
    have hplaces : -((-k).toNat : ℤ) = k := by omega
    rw [denote_decimal, hplaces, hdecimal, hround, hn]

theorem spelledBy_whole {n : ℤ} (hn : x.toInt? = some n) :
    SpelledBy (.float x) (minus x.signBit ++ (natText n.natAbs ++ ['.', '0'])) := by
  have hvalue := Binary64.gridValue_of_toInt? hn
  have hbound := Binary64.isFinite_iff_magnitude.mp (Binary64.isFinite_of_toInt? hn)
  refine spelledBy_float (whole_decimal n.natAbs) ?_
  rw [denote_decimal]
  by_cases hzero : n.natAbs = 0
  · have hmagnitude : x.magnitude = 0 :=
      of_decide_eq_true ((isZero_iff_of_toInt? (a := float x) hn).mpr (Int.natAbs_eq_zero.mp hzero))
    rw [hzero, hmagnitude]
    rfl
  · have hscaled : ((n.natAbs * 10 : ℕ) : ℚ) * 10 ^ (-(1 : ℕ) : ℤ) =
        Binary64.gridValue x.magnitude := by
      rw [hvalue]
      push_cast
      rw [zpow_neg_one, mul_inv_cancel_right₀ (by norm_num)]
    rw [ofDecimal_eq (by omega) (by norm_num) (by norm_num), hscaled,
      ofRat_of_nearestGrid hbound.le (by rw [hvalue]; positivity) (Binary64.nearestGrid_self _)]

theorem spelledBy_notFinite (hf : x.isFinite = false) :
    ∃ y, SpelledBy (.float y) (inexactText x) ∧ (y = x ∨ x.isNaN = true ∧ y.isNaN = true) := by
  unfold inexactText
  rw [Binary64.toRat?_eq, if_neg (Bool.eq_false_iff.mp hf)]
  dsimp only
  cases hnan : x.isNaN with
  | true =>
    rw [if_pos rfl]
    exact ⟨_, spelledBy_special .plusNaN, .inr ⟨rfl, by decide +kernel⟩⟩
  | false =>
    rw [if_neg Bool.false_ne_true]
    refine ⟨x, ?_, .inl rfl⟩
    have hx := Binary64.eq_infinity hnan hf
    cases hsign : x.signBit with
    | true =>
      rw [hx, hsign]
      exact spelledBy_special .negative
    | false =>
      rw [hx, hsign]
      exact spelledBy_special .positive

theorem inexactText_small {n : ℤ} (hn : x.toInt? = some n) (hsmall : n.natAbs < longestWhole) :
    inexactText x = minus x.signBit ++ (natText n.natAbs ++ ['.', '0']) := by
  unfold inexactText
  rw [Binary64.toInt?_eq_some.mp hn]
  dsimp only
  rw [Rat.den_intCast, Rat.num_intCast, if_pos ⟨rfl, hsmall⟩, List.append_assoc]
  rfl

theorem inexactText_positional (hf : x.isFinite = true)
    (hlarge : ∀ n, x.toInt? = some n → longestWhole ≤ n.natAbs) : inexactText x = floatText x := by
  unfold inexactText
  rw [Binary64.toRat?_signed hf]
  dsimp only
  refine if_neg fun hwhole => not_le.mpr hwhole.2 (hlarge _ (Binary64.toInt?_eq_some.mpr ?_))
  rw [Rat.coe_int_num_of_den_eq_one hwhole.1, Binary64.toRat?_signed hf]

/-- The float is an integer that is written without a point. -/
def LargeWhole (x : Binary64) : Prop := ∃ n, x.toInt? = some n ∧ longestWhole ≤ n.natAbs

theorem spelledBy_inexactText (x : Binary64) :
    (∃ y, SpelledBy (.float y) (inexactText x) ∧ (y = x ∨ x.isNaN = true ∧ y.isNaN = true)) ∨
      LargeWhole x ∧ ∃ n : ℤ, SpelledBy (.ofInt n) (inexactText x) ∧ Binary64.ofInt n = x := by
  cases hf : x.isFinite with
  | false => exact .inl (spelledBy_notFinite hf)
  | true =>
    by_cases hsmall : ∃ n, x.toInt? = some n ∧ n.natAbs < longestWhole
    · obtain ⟨n, hn, hlt⟩ := hsmall
      rw [inexactText_small hn hlt]
      exact .inl ⟨x, spelledBy_whole hn, .inl rfl⟩
    · have hlarge (n : ℤ) (hn : x.toInt? = some n) : longestWhole ≤ n.natAbs :=
        not_lt.mp fun hlt => hsmall ⟨n, hn, hlt⟩
      have hz : x.isZero = false :=
        Bool.eq_false_iff.mpr fun h => absurd (hlarge 0 (Binary64.toInt?_of_isZero h)) (by decide)
      rw [inexactText_positional hf hlarge]
      rcases spelledBy_floatText hf hz with ⟨-, hspelled⟩ | ⟨⟨n, hn⟩, hspelled⟩
      · exact .inl ⟨x, hspelled, .inl rfl⟩
      · exact .inr ⟨⟨n, hn, hlarge n hn⟩, hspelled⟩

/-! ### Texts of exact numbers -/

theorem spelledBy_fraction (q : ℚ) :
    SpelledBy (.exact q) (intText q.num ++ '/' :: natText q.den) := by
  have hsign : intText q.num = minus (decide (q.num < 0)) ++ natText q.num.natAbs := by
    unfold intText minus
    split <;> simp [*]
  have hfraction := Magnitude.SpelledBy.fraction (digits_natText q.num.natAbs) (digits_natText q.den)
  rw [digitsValue_natText, digitsValue_natText] at hfraction
  have hdenote : (Magnitude.fraction q.num.natAbs q.den).denote none =
      .ok (.exact (mkRat q.num.natAbs q.den)) := by
    rw [Magnitude.denote, if_neg q.den_nz]
    rfl
  have hspelled := spelledBy_signed (decide (q.num < 0)) hfraction hdenote
  have hsigned : (if decide (q.num < 0) then negate (.exact (mkRat q.num.natAbs q.den))
      else .exact (mkRat q.num.natAbs q.den)) = exact q := by
    by_cases hneg : q.num < 0
    · have hnum : -(q.num.natAbs : ℤ) = q.num := by omega
      rw [decide_eq_true hneg, if_pos rfl, negate, Rat.neg_mkRat, hnum, Rat.mkRat_self]
    · have hnum : (q.num.natAbs : ℤ) = q.num := by omega
      rw [decide_eq_false hneg, if_neg Bool.false_ne_true, hnum, Rat.mkRat_self]
  rw [hsign, List.append_assoc, ← hsigned]
  exact hspelled

/-! ### Texts of reals -/

variable {r : RealNumber}

/-- An exact number that is no integer and is rounded to one other than zero. It is written as its
nearest float, and so without a point. -/
def RoundsToWhole (r : RealNumber) : Prop :=
  r.isExact = true ∧ r.toInt? = none ∧ ∃ n, r.toFloat.toInt? = some n ∧ n ≠ 0

/-- An inexact number whose nearest float is an integer that is written without a point. -/
def WrittenWithoutPoint (r : RealNumber) : Prop := r.isExact = false ∧ LargeWhole r.toFloat

/-- The nearest float of the second number is that of the first, or both are NaN. -/
def SameFloat (r y : RealNumber) : Prop :=
  y.toFloat = r.toFloat ∨ r.toFloat.isNaN = true ∧ y.toFloat.isNaN = true

theorem RoundsToWhole.ofInt_ne (h : r.RoundsToWhole) (n : ℤ) : ofInt n ≠ r := by
  rintro rfl
  cases h.2.1

/-- The text of an exact number is a literal of the number, or the text of its nearest float. -/
theorem spelledBy_exactText (q : ℚ) :
    ¬(exact q).RoundsToWhole ∧ SpelledBy (.exact q) (exactText q) ∨
      q.den ≠ 1 ∧ (Binary64.ofRat q).isFinite = true ∧ (Binary64.ofRat q).isZero = false ∧
        exactText q = floatText (.ofRat q) := by
  unfold exactText
  split
  · next hden =>
    have hq : exact q = ofInt q.num := by rw [ofInt, Rat.coe_int_num_of_den_eq_one hden]
    rw [hq]
    exact .inl ⟨fun h => h.ofInt_ne q.num rfl, number?_intText q.num⟩
  · next hden =>
    extract_lets x
    split
    · next hx =>
      rw [Bool.and_eq_true, Bool.not_eq_true'] at hx
      exact .inr ⟨hden, hx.1, hx.2, rfl⟩
    · next hx =>
      refine .inl ⟨?_, spelledBy_fraction q⟩
      intro hrounds
      obtain ⟨-, -, n, hn, hne⟩ := hrounds
      have hf : x.isFinite = true := Binary64.isFinite_of_toInt? hn
      have hz : x.isZero = false :=
        Bool.eq_false_iff.mpr fun h => hne ((isZero_iff_of_toInt? (a := float x) hn).mp h)
      exact hx (by rw [hf, hz]; rfl)

/-- What can be read from the text of a number: the number itself, or an inexact number, or an
integer where the number was written as one. -/
inductive ReadAs (r : RealNumber) : RealNumber → Prop
  | same (h : ¬r.RoundsToWhole) : ReadAs r r
  | inexact {y : RealNumber} (h : ¬r.RoundsToWhole) (hy : y.isExact = false) : ReadAs r y
  | integer (h : r.RoundsToWhole ∨ r.WrittenWithoutPoint) (n : ℤ) : ReadAs r (.ofInt n)

theorem readAs_inexact (hr : r.isExact = false) :
    ∃ y, SpelledBy y (inexactText r.toFloat) ∧ r.SameFloat y ∧ r.ReadAs y := by
  rcases spelledBy_inexactText r.toFloat with ⟨y, hy, hsame⟩ | ⟨hlarge, n, hn, hround⟩
  · have hrounds : ¬r.RoundsToWhole := fun h => Bool.false_ne_true (hr.symm.trans h.1)
    exact ⟨.float y, hy, hsame, .inexact hrounds rfl⟩
  · exact ⟨.ofInt n, hn, .inl hround, .integer (.inr ⟨hr, hlarge⟩) n⟩

theorem readAs_exact (q : ℚ) :
    ∃ y, SpelledBy y (exactText q) ∧ (exact q).SameFloat y ∧ (exact q).ReadAs y := by
  rcases spelledBy_exactText q with ⟨hrounds, hspelled⟩ | ⟨hden, hf, hz, htext⟩
  · exact ⟨.exact q, hspelled, .inl rfl, .same hrounds⟩
  rw [htext]
  rcases spelledBy_floatText hf hz with ⟨hnone, hspelled⟩ | ⟨⟨b, hb⟩, n, hn, hround⟩
  · have hrounds : ¬(exact q).RoundsToWhole := by
      intro h
      obtain ⟨-, -, n, hn, -⟩ := h
      cases hnone.symm.trans hn
    exact ⟨_, hspelled, .inl rfl, .inexact hrounds rfl⟩
  · have hb' : b ≠ 0 := by
      rintro rfl
      have hzero := (isZero_iff_of_toInt? (a := float (.ofRat q)) hb).mpr rfl
      exact Bool.false_ne_true (hz.symm.trans hzero)
    have hfraction : (exact q).toInt? = none := if_neg hden
    have hrounds : (exact q).RoundsToWhole := ⟨rfl, hfraction, b, hb, hb'⟩
    exact ⟨.ofInt n, hn, .inl hround, .integer (.inl hrounds) n⟩

theorem readAs_plainText (r : RealNumber) :
    ∃ y, SpelledBy y r.plainText ∧ r.SameFloat y ∧ r.ReadAs y := by
  cases r with
  | exact q => exact readAs_exact q
  | inexact q | float x => exact readAs_inexact rfl

end RealNumber

/-! ### The primitives -/

/-- A real number that is written and read back has the same nearest float. If the number that is
read is exact, it is the one that was written, unless that one is no integer and is rounded to one,
or is inexact and written without a point. -/
theorem read_back (r : RealNumber) :
    ∃ t y, Primitive.numberToString.apply [Operation.ofReal r] = .ok (.string t) ∧
      Primitive.stringToNumber.apply [.string t] = .ok (Operation.ofReal y) ∧ r.SameFloat y ∧
      (¬r.RoundsToWhole → ¬r.WrittenWithoutPoint → y.isExact = true → r.isExact = true ∧ y = r) ∧
      (r.RoundsToWhole → (∃ n : ℤ, y = .ofInt n) ∧ y ≠ r) := by
  obtain ⟨y, hspelled, hsame, hread⟩ := r.readAs_plainText
  have htext : (Number.real r).unmarkedText = r.plainText := by
    cases r <;> rfl
  have hwritten : Primitive.numberToString.apply [Operation.ofReal r] =
      .ok (.string (String.ofList r.plainText)) := by
    rw [← htext]
    rfl
  have hnumber : Primitive.stringToNumber.apply [.string (String.ofList r.plainText)] =
      .ok (Operation.ofReal y) := by
    show Operation.stringToNumber _ = _
    unfold Operation.stringToNumber Argument.string
    rw [map_ok]
    refine ⟨_, rfl, ?_⟩
    rw [String.toList_ofList, hspelled]
    rfl
  refine ⟨_, y, hwritten, hnumber, hsame, fun hrounds hpoint hexact => ?_, fun hrounds => ?_⟩
  · cases hread with
    | same => exact ⟨hexact, rfl⟩
    | inexact _ hy => exact absurd (hexact.symm.trans hy) (by decide)
    | integer h n => exact absurd h (not_or.mpr ⟨hrounds, hpoint⟩)
  · cases hread with
    | same h | inexact h => exact absurd hrounds h
    | integer h n => exact ⟨⟨n, rfl⟩, hrounds.ofInt_ne n⟩

/-- The integer `7` is read back as itself. -/
theorem read_back_seven :
    ∃ t y, Primitive.numberToString.apply [Operation.ofReal (.ofInt 7)] = .ok (.string t) ∧
      Primitive.stringToNumber.apply [.string t] = .ok (Operation.ofReal y) ∧
      y.isExact = true ∧ y = .ofInt 7 := by
  obtain ⟨t, y, ht, hy, -, hback, -⟩ := read_back (.ofInt 7)
  have htext : t = "7" := by
    cases ht
    decide +kernel
  have hexact : y.isExact = true := by
    subst htext
    cases hy
    rfl
  have hrounds : ¬(RealNumber.ofInt 7).RoundsToWhole := fun h => h.ofInt_ne 7 rfl
  have hpoint : ¬(RealNumber.ofInt 7).WrittenWithoutPoint := fun h => Bool.noConfusion h.1
  exact ⟨t, y, ht, hy, hexact, (hback hrounds hpoint hexact).2⟩

/-- A fraction that is a little more than one is written as `1`, and the float `10^21` as an exact
integer. -/
theorem read_back_as_another :
    (Primitive.numberToString.apply
        [Operation.ofReal (.exact (mkRat (10 ^ 30 + 1) (10 ^ 30)))] = .ok (.string "1") ∧
      Primitive.stringToNumber.apply [.string "1"] = .ok (Operation.ofReal (.ofInt 1)) ∧
      RealNumber.ofInt 1 ≠ .exact (mkRat (10 ^ 30 + 1) (10 ^ 30))) ∧
    Primitive.numberToString.apply [Operation.ofReal (.float (.ofDecimal 1 21))] =
        .ok (.string "1000000000000000000000") ∧
      Primitive.stringToNumber.apply [.string "1000000000000000000000"] =
        .ok (Operation.ofReal (.ofInt (10 ^ 21))) := by
  refine ⟨⟨?_, rfl, by decide +kernel⟩, ?_, rfl⟩
  · exact congrArg (fun t => Except.ok (Value.string t)) (by decide +kernel)
  · exact congrArg (fun t => Except.ok (Value.string t)) (by decide +kernel)

end BeginningStudent
