import BeginningStudent.Proofs.DecimalScales
import Mathlib.Algebra.Field.Rat

/-!
# What literals denote

A text is a number literal exactly if the grammar derives it, and then it is one token or one scan
error. `Shape.value` says what a literal whose components are rational is worth, without the
readers and the words they compute in; `Literal.literals_read_as_spelled` says that this is the
number which is read, unless a scale leaves the words.
-/

namespace BeginningStudent.Literal

/-! ### The value of literals -/

def Magnitude.value : Magnitude → Except ArithmeticFault Rat
  | .integer n => .ok n
  | .fraction n d => if d = 0 then .error .divideByZero else .ok (n / d)
  | .decimal digits places exponent =>
    if exponent.natAbs ≤ 4096 then .ok (digits * 10 ^ (exponent - places))
    else .error .noExactRepresentation
  | .special _ => .error .noExactRepresentation

def Signed.value (s : Signed) : Except ArithmeticFault Rat :=
  s.magnitude.value.map fun q => if s.negative then -q else q

/-- A rational of the kind that a mark asks for. -/
def marked (mark : Option Mark) (q : Rat) : RealNumber :=
  if mark = some .inexact then .inexact q else .exact q

/-- The number with the given parts; the fault of the real part comes first. -/
def ofComponents (mark : Option Mark) :
    Except ArithmeticFault Rat → Except ArithmeticFault Rat → Except ArithmeticFault Number
  | .ok re, .ok im => .ok (.ofParts (marked mark re) (marked mark im))
  | .error fault, _ => .error fault
  | .ok _, .error fault => .error fault

def Shape.value (mark : Option Mark) : Shape → Except ArithmeticFault Number
  | .real re => re.value.map fun q => .real (marked mark q)
  | .complex re im => ofComponents mark re.value im.value

def Shape.components : Shape → List Signed
  | .real re => [re]
  | .complex re im => [re, im]

/-- Decimals and specials are floats unless they are marked exact. -/
def Magnitude.Rational (mark : Option Mark) : Magnitude → Prop
  | .integer _ | .fraction _ _ => True
  | .decimal _ _ _ | .special _ => mark = some .exact

def Magnitude.Fits : Magnitude → Prop
  | .decimal _ places exponent => ¬Scale.Overflows places exponent
  | _ => True

variable {mark : Option Mark} {m : Magnitude} {r : Signed} {shape : Shape} {s : List Char}

/-! ### The number that is read -/

theorem apply_inIntegers {places : Nat} {exponent : Int} {scale : Scale} (digits : Nat)
    (h : Scale.inIntegers? places exponent = some scale) :
    scale.apply digits = digits * 10 ^ (exponent - places) := by
  unfold Scale.inIntegers? at h
  split at h
  · cases h
    split
    · next hle =>
      obtain ⟨n, hn⟩ := Int.eq_ofNat_of_zero_le (sub_nonneg.mpr hle)
      rw [hn, Scale.apply, zpow_natCast]
      simp
    · next hlt =>
      obtain ⟨n, hn⟩ : ∃ n : Nat, (places - exponent : Int) = n :=
        Int.eq_ofNat_of_zero_le (by omega)
      rw [hn, Scale.apply, ← neg_sub, hn, zpow_neg, zpow_natCast, Rat.mkRat_eq_div]
      simp [div_eq_mul_inv]
  · cases h

theorem Magnitude.denote_eq (h : m.Rational mark) (hfits : m.Fits) :
    m.denote mark = m.value.map (marked mark) := by
  cases m with
  | integer n => simp [denote, value, marked, Except.map]
  | fraction n d =>
    rw [denote, value, Rat.mkRat_eq_div]
    split
    · rfl
    · simp [marked, Except.map]
  | decimal digits places exponent =>
    have hmark : mark = some .exact := h
    rw [denote, Scale.of?_eq hfits, value, hmark]
    cases hscale : Scale.inIntegers? places exponent with
    | none =>
      have hlarge : ¬exponent.natAbs ≤ 4096 := by
        intro hsmall
        simp [Scale.inIntegers?, hsmall] at hscale
      rw [if_neg hlarge]
      rfl
    | some scale =>
      have hsmall : exponent.natAbs ≤ 4096 := by
        by_contra hlarge
        simp [Scale.inIntegers?, hlarge] at hscale
      rw [if_pos hsmall, ← apply_inIntegers digits hscale]
      rfl
  | special x =>
    have hmark : mark = some .exact := h
    rw [denote, if_pos hmark]
    rfl

theorem negate_marked (q : Rat) : (marked mark q).negate = marked mark (-q) := by
  unfold marked
  split <;> rfl

theorem Signed.denote_eq (h : r.magnitude.Rational mark) (hfits : r.magnitude.Fits) :
    r.denote mark = r.value.map (marked mark) := by
  rw [denote, Magnitude.denote_eq h hfits, value]
  cases r.magnitude.value with
  | error fault => rfl
  | ok q =>
    show Except.ok (if r.negative then (marked mark q).negate else marked mark q) =
      .ok (marked mark (if r.negative then -q else q))
    rw [negate_marked]
    split <;> rfl

/-- Literals of rational components denote what they are worth. -/
theorem Shape.denote_eq (h : ∀ r ∈ shape.components, r.magnitude.Rational mark)
    (hfits : ∀ r ∈ shape.components, r.magnitude.Fits) :
    shape.denote mark = shape.value mark := by
  cases shape with
  | real re =>
    have hre := Signed.denote_eq (h re (by simp [components])) (hfits re (by simp [components]))
    rw [denote, hre, value]
    cases re.value <;> rfl
  | complex re im =>
    have hre := Signed.denote_eq (h re (by simp [components])) (hfits re (by simp [components]))
    have him := Signed.denote_eq (h im (by simp [components])) (hfits im (by simp [components]))
    rw [denote, hre, him, value]
    cases re.value <;> cases im.value <;> rfl

/-! ### Literals as tokens -/

/-- What is wrong with a literal that has no value. -/
def scanError (text : List Char) : ArithmeticFault → ScanError
  | .divideByZero => .zeroDenominator (String.ofList text)
  | .noExactRepresentation => .noExactValue (String.ofList text)

theorem SpelledBy.subset_letters (h : SpelledBy mark shape s) : s ⊆ '#' :: 'I' :: letters := by
  have hletters : letters ⊆ '#' :: 'I' :: letters := by decide
  have hhash : '#' ∈ '#' :: 'I' :: letters := List.mem_cons_self
  cases h with
  | unmarked h => exact List.Subset.trans h.subset_letters hletters
  | @exact c _ _ hc h | @inexact c _ _ hc h =>
    have hmark : c ∈ '#' :: 'I' :: letters := by obtain rfl | rfl := hc <;> decide
    exact List.cons_subset.mpr
      ⟨hhash, List.cons_subset.mpr ⟨hmark, List.Subset.trans h.subset_letters hletters⟩⟩

theorem SpelledBy.undelimited (h : SpelledBy mark shape s) : Token.Undelimited s := by
  have hletters : Token.Undelimited ('#' :: 'I' :: letters) := by decide
  exact fun c hc => hletters c (h.subset_letters hc)

theorem SpelledBy.ne_nil (h : SpelledBy mark shape s) : s ≠ [] := by
  rintro rfl
  have hread : number? [] = some (shape.denote mark) := number?_iff.mpr ⟨mark, shape, h, rfl⟩
  have hnone : number? [] = none := rfl
  rw [hnone] at hread
  cases hread

theorem SpelledBy.ne_comment (h : SpelledBy mark shape s) (rest : List Char) :
    s ≠ '#' :: '|' :: rest := by
  rintro rfl
  have hbar : '|' ∈ '#' :: 'I' :: letters := h.subset_letters (by simp)
  exact absurd hbar (by decide)

/-- A mark and parts are spelled by a text in one way at most. -/
theorem SpelledBy.unique {mark' : Option Mark} {shape' : Shape} (h : SpelledBy mark shape s)
    (h' : SpelledBy mark' shape' s) : mark' = mark ∧ shape' = shape := by
  obtain ⟨body, hmark, hbody⟩ := mark?_spelled h
  obtain ⟨body', hmark', hbody'⟩ := mark?_spelled h'
  obtain ⟨rfl, rfl⟩ := Prod.mk.inj (Option.some.inj (hmark'.symm.trans hmark))
  exact ⟨rfl, Option.some.inj ((shape?_spelled hbody').symm.trans (shape?_spelled hbody))⟩

theorem scan_literal {z : Number} (h : SpelledBy mark shape s) (hz : shape.denote mark = .ok z)
    {x : List Char} (hx : Token.EndsWord x) :
    Token.scan (s ++ x) = (.number z :: (Token.scan x).1, (Token.scan x).2) := by
  have hread : number? s = some (.ok z) := number?_iff.mpr ⟨mark, shape, h, hz⟩
  exact Token.scan_word h.ne_nil h.undelimited (Token.ofWord_number hread) hx

theorem scan_literal_error {fault : ArithmeticFault} (h : SpelledBy mark shape s)
    (hfault : shape.denote mark = .error fault) {x : List Char} (hx : Token.EndsWord x) :
    Token.scan (s ++ x) = ([], some (scanError s fault)) := by
  have hread : number? s = some (.error fault) := number?_iff.mpr ⟨mark, shape, h, hfault⟩
  have hword : Token.ofWord s = .error (scanError s fault) := by
    rw [Token.ofWord_eq (Token.ne_booleanWords hread), hread]
    cases fault <;> rfl
  exact Token.scan_word_error h.ne_nil h.undelimited h.ne_comment hword hx

/-- The readers, which never go back, accept the texts that the grammar derives and no others. A
text that it derives has one mark and shape, is one token or one scan error, and has the value of
its components, which the words must not prevent. -/
theorem literals_read_as_spelled (s : List Char) :
    ((number? s).isSome ↔ ∃ mark shape, SpelledBy mark shape s) ∧
    ∀ mark shape, SpelledBy mark shape s →
      (∀ mark' shape', SpelledBy mark' shape' s → mark' = mark ∧ shape' = shape) ∧
      (∀ z, number? s = some (.ok z) → Token.scan s = ([.number z], none)) ∧
      (∀ fault, number? s = some (.error fault) → Token.scan s = ([], some (scanError s fault))) ∧
      ((∀ r ∈ shape.components, r.magnitude.Rational mark) →
        (∀ r ∈ shape.components, r.magnitude.Fits) → number? s = some (shape.value mark)) := by
  constructor
  · rw [Option.isSome_iff_exists]
    constructor
    · intro ⟨r, hr⟩
      obtain ⟨mark, shape, h, -⟩ := number?_iff.mp hr
      exact ⟨mark, shape, h⟩
    · intro ⟨mark, shape, h⟩
      exact ⟨_, number?_iff.mpr ⟨mark, shape, h, rfl⟩⟩
  · intro mark shape h
    have hread : number? s = some (shape.denote mark) := number?_iff.mpr ⟨mark, shape, h, rfl⟩
    refine ⟨fun _ _ h' => h.unique h', ?_, ?_, ?_⟩
    · intro z hz
      have hscan := scan_literal h (Option.some.inj (hread.symm.trans hz)) Token.endsWord_nil
      rwa [List.append_nil, Token.scan_nil] at hscan
    · intro fault hfault
      have hscan :=
        scan_literal_error h (Option.some.inj (hread.symm.trans hfault)) Token.endsWord_nil
      rwa [List.append_nil] at hscan
    · intro hrational hfits
      rw [hread, Shape.denote_eq hrational hfits]

theorem literals_read_as_spelled_complex :
    number? "#e1.5-2/3i".toList = some (.ok (.complex (.exact (3 / 2)) (.exact (-(2 / 3))))) ∧
      Token.scan "#e1.5-2/3i".toList =
        ([.number (.complex (.exact (3 / 2)) (.exact (-(2 / 3))))], none) := by
  have hspelled : SpelledBy (some .exact) (.complex ⟨false, .decimal 15 1 0⟩ ⟨true, .fraction 2 3⟩)
      "#e1.5-2/3i".toList := mark?_sound rfl (shape?_iff.mp (by decide +kernel))
  obtain ⟨-, hscan, -, hvalue⟩ := (literals_read_as_spelled _).2 _ _ hspelled
  have hread := hvalue (by simp [Shape.components, Magnitude.Rational])
    (by simp [Shape.components, Magnitude.Fits, Scale.Overflows])
  have hnumber : Shape.value (some .exact)
      (.complex ⟨false, .decimal 15 1 0⟩ ⟨true, .fraction 2 3⟩) =
        .ok (.complex (.exact (3 / 2)) (.exact (-(2 / 3)))) := by
    decide +kernel
  rw [hnumber] at hread
  exact ⟨hread, hscan _ hread⟩

/-- With the least exponent a decimal that is marked exact is read as a number, as if the limit did
not exist. -/
theorem literal_beyond_limit :
    SpelledBy (some .exact) (.real ⟨false, .decimal 1 0 (-2 ^ 63)⟩)
        "#e1e-9223372036854775808".toList ∧
      Shape.value (some .exact) (.real ⟨false, .decimal 1 0 (-2 ^ 63)⟩) =
        .error .noExactRepresentation ∧
      ∃ z, number? "#e1e-9223372036854775808".toList = some (.ok z) := by
  have hspelled : SpelledBy (some .exact) (.real ⟨false, .decimal 1 0 (-2 ^ 63)⟩)
      "#e1e-9223372036854775808".toList := mark?_sound rfl (shape?_iff.mp (by decide +kernel))
  refine ⟨hspelled, by decide, .real (.exact (Scale.apply 1 (.over (2 ^ 63)))), ?_⟩
  refine number?_iff.mpr ⟨_, _, hspelled, ?_⟩
  have hscale : Scale.of? 0 (-2 ^ 63) = some (.over (2 ^ 63)) := Scale.of?_least (by decide)
  rw [Shape.denote, Signed.denote, Magnitude.denote, hscale]
  rfl

end BeginningStudent.Literal
