import BeginningStudent.Proofs.Words
import Mathlib.Data.List.TakeDrop

/-!
# Integers as literals

The decimal text of an integer is a literal of that integer, and so is the text of a complex number
whose parts are integers (`Literal.number?_intText`, `Literal.number?_complexText`). Whatever ends a
word may follow them (`Token.scan_integer`, `Token.scan_complex`).
-/

namespace BeginningStudent

/-! ### Digits -/

theorem mem_digits {c : Char} (hc : c.isDigit = true) : c ∈ "0123456789".toList := by
  have hall : ∀ k < 10, Char.ofNat (48 + k) ∈ "0123456789".toList := by decide
  have hbounds : 48 ≤ c.toNat ∧ c.toNat ≤ 57 := by
    simpa [Char.isDigit, UInt32.le_iff_toNat_le] using hc
  have hk := hall (c.toNat - 48) (by omega)
  rwa [show 48 + (c.toNat - 48) = c.toNat by omega, Char.ofNat_toNat] at hk

theorem isDelimiter_digit {c : Char} (hc : c.isDigit = true) : Token.isDelimiter c = false :=
  (by decide : Token.Undelimited "0123456789".toList) c (mem_digits hc)

namespace Literal

open Decimal

theorem natText_ne_nil (n : Nat) : natText n ≠ [] := Nat.toDigits_ne_nil

theorem isDigit_natText (n : Nat) : ∀ c ∈ natText n, c.isDigit = true :=
  fun _ hc => Nat.isDigit_of_mem_toDigits (by decide) (by decide) hc

theorem digitsValue_natText (n : Nat) : digitsValue (natText n) = n :=
  Nat.ofDigitChars_toDigits (by decide) (by decide)

def Digits (ds : List Char) : Prop := ds ≠ [] ∧ ∀ c ∈ ds, c.isDigit = true

theorem digits_natText (n : Nat) : Digits (natText n) := ⟨natText_ne_nil n, isDigit_natText n⟩

/-- The text ends the digits before it. -/
def EndsDigits (x : List Char) : Prop := ∀ c ∈ x.head?, c.isDigit = false

/-- The text ends the digits before it, and makes neither a decimal nor a fraction of them. -/
def EndsInteger (x : List Char) : Prop :=
  ∀ c ∈ x.head?, c.isDigit = false ∧ c ≠ '.' ∧ c ≠ 'e' ∧ c ≠ 'E' ∧ c ≠ '/'

theorem endsInteger_nil : EndsInteger [] := by simp [EndsInteger]

theorem EndsInteger.endsDigits {x : List Char} (hx : EndsInteger x) : EndsDigits x :=
  fun c hc => (hx c hc).1

/-- The character begins an unsigned real. -/
def Opens (c : Char) : Prop := c.isDigit = true ∨ c = '.'

instance (c : Char) : Decidable (Opens c) := inferInstanceAs (Decidable (_ ∨ _))

theorem Opens.ne {c d : Char} (hc : Opens c) (hd : ¬Opens d) : c ≠ d := by
  rintro rfl
  exact hd hc

variable {ds x : List Char}

theorem Digits.begins (h : Digits ds) : ∃ c r, ds = c :: r ∧ Opens c := by
  cases ds with
  | nil => exact absurd rfl h.1
  | cons c r => exact ⟨c, r, rfl, .inl (h.2 c List.mem_cons_self)⟩

theorem span_digits (hds : ∀ c ∈ ds, c.isDigit = true) (hx : EndsDigits x) :
    (ds ++ x).span Char.isDigit = (ds, x) := by
  rw [List.span_eq_takeWhile_dropWhile, List.takeWhile_append_of_pos hds,
    List.dropWhile_append_of_pos hds]
  cases x with
  | nil => simp
  | cons c x => simp [hx c rfl]

theorem digits?_append (hds : Digits ds) (hx : EndsDigits x) :
    digits? (ds ++ x) = some (ds, x) := by
  rw [digits?, span_digits hds.2 hx]
  cases ds with
  | nil => exact absurd rfl hds.1
  | cons d ds => rfl

theorem wholeDecimal?_digits (hds : Digits ds) (hx : EndsDigits x) (hpoint : x.head? ≠ some '.') :
    wholeDecimal? (ds ++ x) = none := by
  rw [wholeDecimal?, digits?_append hds hx]
  cases x with
  | nil => rfl
  | cons c x =>
    have hc : c ≠ '.' := by simpa using hpoint
    simp [hc]

theorem pointDecimal?_digits (hds : Digits ds) (x : List Char) :
    pointDecimal? (ds ++ x) = none := by
  cases ds with
  | nil => exact absurd rfl hds.1
  | cons d ds =>
    have hd : d ≠ '.' := by
      rintro rfl
      exact absurd (hds.2 '.' List.mem_cons_self) (by decide)
    rw [List.cons_append, pointDecimal?]
    simp [hd]

theorem exponentDecimal?_digits (hds : Digits ds) (hx : EndsDigits x) (hnone : exponent? x = none) :
    exponentDecimal? (ds ++ x) = none := by
  rw [exponentDecimal?, digits?_append hds hx]
  simp [hnone]

theorem exponent?_eq_none (hx : EndsInteger x) : exponent? x = none := by
  cases x with
  | nil => rfl
  | cons c x =>
    obtain ⟨-, -, hlower, hupper, -⟩ := hx c rfl
    rw [exponent?, if_neg (not_or.mpr ⟨hlower, hupper⟩)]

theorem unsigned?_integer (hds : Digits ds) (hx : EndsInteger x) :
    unsigned? (ds ++ x) = some (.integer (digitsValue ds), x) := by
  have hdigits := digits?_append hds hx.endsDigits
  have hpoint : x.head? ≠ some '.' := fun h => (hx '.' h).2.1 rfl
  have hfraction : fraction? (ds ++ x) = none := by
    rw [fraction?, hdigits]
    cases x with
    | nil => rfl
    | cons c x =>
      obtain ⟨-, -, -, -, hslash⟩ := hx c rfl
      simp [hslash]
  rw [unsigned?, wholeDecimal?_digits hds hx.endsDigits hpoint, pointDecimal?_digits hds,
    exponentDecimal?_digits hds hx.endsDigits (exponent?_eq_none hx), hfraction, integer?, hdigits]
  rfl

theorem unsigned?_natText (n : Nat) (hx : EndsInteger x) :
    unsigned? (natText n ++ x) = some (.integer n, x) := by
  rw [unsigned?_integer (digits_natText n) hx, digitsValue_natText]

/-! ### Parts of numbers -/

theorem sign?_of_opens {c : Char} (hc : Opens c) (s : List Char) : sign? (c :: s) = none := by
  unfold sign?
  split
  iterate 2 (next heq => exact absurd (List.cons.inj heq).1 (hc.ne (by decide)))
  rfl

theorem special?_of_opens {c : Char} (hc : Opens c) (s : List Char) :
    special? (c :: s) = none := by
  unfold special?
  split
  iterate 4 (next heq => exact absurd (List.cons.inj heq).1 (hc.ne (by decide)))
  rfl

theorem special?_sign_of_opens {c : Char} (hc : Opens c) (sign : Char) (s : List Char) :
    special? (sign :: c :: s) = none := by
  unfold special?
  split
  iterate 4
    next heq => exact absurd (List.cons.inj (List.cons.inj heq).2).1 (hc.ne (by decide))
  rfl

theorem special?_natText (n : Nat) (x : List Char) :
    special? (natText n ++ x) = none ∧ ∀ sign, special? (sign :: (natText n ++ x)) = none := by
  obtain ⟨d, ds, h, hd⟩ := (digits_natText n).begins
  rw [h]
  exact ⟨special?_of_opens hd _, fun sign => special?_sign_of_opens hd sign _⟩

theorem sign?_natText (n : Nat) (x : List Char) : sign? (natText n ++ x) = none := by
  obtain ⟨d, ds, h, hd⟩ := (digits_natText n).begins
  rw [h]
  exact sign?_of_opens hd _

theorem real?_intText (n : Int) (hx : EndsInteger x) :
    real? (intText n ++ x) = some (⟨decide (n < 0), .integer n.natAbs⟩, x) := by
  obtain ⟨hunsigned, hsigned⟩ := special?_natText n.natAbs x
  by_cases hn : n < 0
  · simp [intText, hn, real?, hsigned, optionalSign, sign?, unsigned?_natText _ hx]
  · simp [intText, hn, real?, hunsigned, optionalSign, sign?_natText, unsigned?_natText _ hx]

theorem imaginary?_intText (n : Int) : imaginary? (intText n) = none := by
  obtain ⟨hunsigned, hsigned⟩ := special?_natText n.natAbs []
  rw [List.append_nil] at hunsigned hsigned
  have hnat := unsigned?_natText n.natAbs endsInteger_nil
  have hsign := sign?_natText n.natAbs []
  rw [List.append_nil] at hnat hsign
  by_cases hn : n < 0
  · simp [intText, hn, imaginary?, hsigned, signed?, sign?, hnat]
  · simp [intText, hn, imaginary?, hunsigned, signed?, hsign]

def imaginaryText (n : Int) : List Char :=
  (if n < 0 then '-' else '+') :: (natText n.natAbs ++ ['i'])

theorem imaginary?_imaginaryText (n : Int) (x : List Char) :
    imaginary? (imaginaryText n ++ x) = some (⟨decide (n < 0), .integer n.natAbs⟩, x) := by
  have hi : EndsInteger ('i' :: x) := by simp [EndsInteger]
  obtain ⟨-, hspecial⟩ := special?_natText n.natAbs ('i' :: x)
  have hnat := unsigned?_natText n.natAbs hi
  by_cases hn : n < 0
  · simp [imaginaryText, hn, imaginary?, hspecial, signed?, sign?, hnat]
  · simp [imaginaryText, hn, imaginary?, hspecial, signed?, sign?, hnat]

/-! ### Numbers -/

theorem endsInteger_imaginaryText (n : Int) : EndsInteger (imaginaryText n) := by
  unfold EndsInteger imaginaryText
  split <;> simp

theorem shape?_intText (n : Int) :
    shape? (intText n) = some (.real ⟨decide (n < 0), .integer n.natAbs⟩) := by
  have hreal := real?_intText n endsInteger_nil
  rw [List.append_nil] at hreal
  have hnone : imaginary? [] = none := rfl
  simp [shape?, parts?, hreal, hnone, imaginary?_intText]

theorem shape?_complexText (re im : Int) :
    shape? (intText re ++ imaginaryText im) =
      some (.complex ⟨decide (re < 0), .integer re.natAbs⟩
        ⟨decide (im < 0), .integer im.natAbs⟩) := by
  have hreal := real?_intText re (endsInteger_imaginaryText im)
  have himaginary := imaginary?_imaginaryText im []
  rw [List.append_nil] at himaginary
  simp [shape?, parts?, hreal, himaginary]

theorem denote_integer (n : Int) :
    Signed.denote none ⟨decide (n < 0), .integer n.natAbs⟩ = .ok (.ofInt n) := by
  have hdenote : Signed.denote none ⟨decide (n < 0), .integer n.natAbs⟩ =
      .ok (if n < 0 then .exact (-(n.natAbs : Rat)) else .exact n.natAbs) := by
    by_cases hn : n < 0
    · rw [if_pos hn, decide_eq_true hn]
      rfl
    · rw [if_neg hn, decide_eq_false hn]
      rfl
  rw [hdenote, RealNumber.ofInt, ← Rat.intCast_natCast]
  split
  · rw [← Rat.intCast_neg, show -(n.natAbs : Int) = n by omega]
  · rw [show (n.natAbs : Int) = n by omega]

theorem mark?_unmarked {s : List Char} (hs : s.head? ≠ some '#') : mark? s = some (none, s) := by
  unfold mark?
  split
  · simp at hs
  · simp at hs
  · rfl

theorem head?_intText (n : Int) (x : List Char) : (intText n ++ x).head? ≠ some '#' := by
  obtain ⟨d, ds, h, hd⟩ := (digits_natText n.natAbs).begins
  unfold intText
  split
  · simp
  · rw [h]
    rintro ⟨⟩
    exact absurd hd (by decide)

theorem number?_intText (n : Int) : number? (intText n) = some (.ok (.ofInt n)) := by
  have hmark : mark? (intText n) = some (none, intText n) := by
    have hhead := head?_intText n []
    rw [List.append_nil] at hhead
    exact mark?_unmarked hhead
  simp [number?, hmark, shape?_intText, Shape.denote, denote_integer, Functor.map, Except.map,
    Number.ofInt]

theorem number?_complexText (re im : Int) :
    number? (intText re ++ imaginaryText im) = some (.ok (.ofParts (.ofInt re) (.ofInt im))) := by
  have hmark := mark?_unmarked (head?_intText re (imaginaryText im))
  simp [number?, hmark, shape?_complexText, Shape.denote, denote_integer, bind, Except.bind, pure,
    Except.pure]

end Literal

/-! ### The text of numbers -/

namespace Number

theorem plainText_ofInt (n : Int) : (RealNumber.ofInt n).plainText = Decimal.intText n := by
  simp [RealNumber.plainText, RealNumber.ofInt, RealNumber.exactText]

theorem text_ofInt (n : Int) : (ofInt n).text = Decimal.intText n := by
  simp [text, ofInt, RealNumber.text, RealNumber.ofInt, RealNumber.isExact, ← plainText_ofInt]

theorem text_complex (re im : Int) :
    (complex (.ofInt re) (.ofInt im)).text = Decimal.intText re ++ Literal.imaginaryText im := by
  have hre : (RealNumber.ofInt re).text = Decimal.intText re := by
    simp [RealNumber.text, RealNumber.isExact, RealNumber.ofInt, ← plainText_ofInt]
  rw [text, hre, plainText_ofInt]
  obtain ⟨d, ds, h, hd⟩ := (Literal.digits_natText im.natAbs).begins
  by_cases hn : im < 0
  · simp [Decimal.intText, Literal.imaginaryText, hn]
  · have hminus : d ≠ '-' := hd.ne (by decide)
    have hplus : d ≠ '+' := hd.ne (by decide)
    simp [Decimal.intText, Literal.imaginaryText, hn, h, hminus, hplus]

theorem Collapsed.im_ne_zero {re : RealNumber} {im : Int}
    (h : (complex re (.ofInt im)).Collapsed) : im ≠ 0 := by
  rintro rfl
  exact absurd h (by simp [Collapsed, RealNumber.isExactZero, RealNumber.ofInt])

end Number

/-! ### Scanning -/

namespace Token

theorem undelimited_natText (n : Nat) : Undelimited (Decimal.natText n) :=
  fun c hc => isDelimiter_digit (Literal.isDigit_natText n c hc)

theorem undelimited_intText (n : Int) : Undelimited (Decimal.intText n) := by
  unfold Decimal.intText
  split
  · exact List.forall_mem_cons.mpr ⟨by decide, undelimited_natText _⟩
  · exact undelimited_natText _

theorem undelimited_imaginaryText (n : Int) : Undelimited (Literal.imaginaryText n) := by
  refine List.forall_mem_cons.mpr ⟨by split <;> decide, fun c hc => ?_⟩
  rcases List.mem_append.mp hc with hc | hc
  · exact undelimited_natText _ c hc
  · rw [List.mem_singleton.mp hc]
    decide

theorem intText_ne_nil (n : Int) : Decimal.intText n ≠ [] := by
  unfold Decimal.intText
  split
  · exact List.cons_ne_nil _ _
  · exact Literal.natText_ne_nil _

/-- An integer that is shown is scanned back, whatever ends the word. -/
theorem scan_integer (n : Int) {x : List Char} (hx : EndsWord x) :
    scan ((Number.ofInt n).text ++ x) = (.number (.ofInt n) :: (scan x).1, (scan x).2) := by
  rw [Number.text_ofInt]
  exact scan_word (intText_ne_nil n) (undelimited_intText n)
    (ofWord_number (Literal.number?_intText n)) hx

/-- A complex number with integer parts that is shown is scanned back, whatever ends the word. -/
theorem scan_complex (re : Int) {im : Int} (him : im ≠ 0) {x : List Char} (hx : EndsWord x) :
    scan ((Number.complex (.ofInt re) (.ofInt im)).text ++ x) =
      (.number (.complex (.ofInt re) (.ofInt im)) :: (scan x).1, (scan x).2) := by
  have hparts : Number.ofParts (.ofInt re) (.ofInt im) = .complex (.ofInt re) (.ofInt im) := by
    simp [Number.ofParts, RealNumber.isExactZero, RealNumber.ofInt, him]
  rw [Number.text_complex]
  refine scan_word ?_ ?_ (ofWord_number ?_) hx
  · simp [intText_ne_nil]
  · intro c hc
    rcases List.mem_append.mp hc with hc | hc
    · exact undelimited_intText re c hc
    · exact undelimited_imaginaryText im c hc
  · rw [Literal.number?_complexText, hparts]

theorem scan_integerParts {z : Number} (hz : z.Collapsed) {re im : Int} (hre : z.re = .ofInt re)
    (him : z.im = .ofInt im) {x : List Char} (hx : EndsWord x) :
    scan (z.text ++ x) = (.number z :: (scan x).1, (scan x).2) := by
  cases z with
  | real r =>
    cases hre
    exact scan_integer re hx
  | complex r i =>
    cases hre
    cases him
    exact scan_complex re hz.im_ne_zero hx

end Token
end BeginningStudent
