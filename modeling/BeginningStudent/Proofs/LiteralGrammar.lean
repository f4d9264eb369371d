import BeginningStudent.Proofs.Numerals

/-!
# The grammar of literals

What texts are number literals, said without the readers: `SpelledBy` relates each part of a literal
to its spellings. The readers take the first alternative that matches and never go back. All the
same they read every spelling to its end (`real?_append`, `imaginary?_spelled`) and nothing else
(`real?_sound`, `imaginary?_sound`), so that `shape?_iff` and `number?_iff` say which texts are
read, and as what.
-/

namespace BeginningStudent.Literal

/-! ### Spellings -/

inductive Sign : Bool → List Char → Prop
  | plus : Sign false ['+']
  | minus : Sign true ['-']

inductive SignIfAny : Bool → List Char → Prop
  | absent : SignIfAny false []
  | present {negative s} (h : Sign negative s) : SignIfAny negative s

inductive Exponent : Int → List Char → Prop
  | mk {letter negative s ds} (hletter : letter = 'e' ∨ letter = 'E')
      (hs : SignIfAny negative s) (hds : Digits ds) :
      Exponent (if negative then -(digitsValue ds : Int) else digitsValue ds)
        (letter :: (s ++ ds))

inductive ExponentIfAny : Int → List Char → Prop
  | absent : ExponentIfAny 0 []
  | present {e s} (h : Exponent e s) : ExponentIfAny e s

inductive Magnitude.SpelledBy : Magnitude → List Char → Prop
  | wholeDecimal {whole places e s} (hwhole : Digits whole)
      (hplaces : ∀ c ∈ places, c.isDigit = true) (he : ExponentIfAny e s) :
      SpelledBy (.decimal (digitsValue (whole ++ places)) places.length e)
        (whole ++ '.' :: (places ++ s))
  | pointDecimal {places e s} (hplaces : Digits places) (he : ExponentIfAny e s) :
      SpelledBy (.decimal (digitsValue places) places.length e) ('.' :: (places ++ s))
  | exponentDecimal {whole e s} (hwhole : Digits whole) (he : Exponent e s) :
      SpelledBy (.decimal (digitsValue whole) 0 e) (whole ++ s)
  | fraction {n d} (hn : Digits n) (hd : Digits d) :
      SpelledBy (.fraction (digitsValue n) (digitsValue d)) (n ++ '/' :: d)
  | integer {n} (hn : Digits n) : SpelledBy (.integer (digitsValue n)) n

inductive Special : Binary64 → List Char → Prop
  | positive : Special (.infinity false) ['+', 'i', 'n', 'f', '.', '0']
  | negative : Special (.infinity true) ['-', 'i', 'n', 'f', '.', '0']
  | plusNaN : Special (.nan false) ['+', 'n', 'a', 'n', '.', '0']
  | minusNaN : Special (.nan false) ['-', 'n', 'a', 'n', '.', '0']

inductive Signed.SpelledBy : Signed → List Char → Prop
  | special {x s} (h : Special x s) : SpelledBy ⟨false, .special x⟩ s
  | unsigned {negative m s t} (hs : SignIfAny negative s) (h : m.SpelledBy t) :
      SpelledBy ⟨negative, m⟩ (s ++ t)

inductive Signed.ImaginarySpelledBy : Signed → List Char → Prop
  | special {x s} (h : Special x s) : ImaginarySpelledBy ⟨false, .special x⟩ (s ++ ['i'])
  | unit {negative s} (hs : Sign negative s) :
      ImaginarySpelledBy ⟨negative, .integer 1⟩ (s ++ ['i'])
  | unsigned {negative m s t} (hs : Sign negative s) (h : m.SpelledBy t) :
      ImaginarySpelledBy ⟨negative, m⟩ (s ++ (t ++ ['i']))

inductive Shape.SpelledBy : Shape → List Char → Prop
  | complex {re im s t} (hre : re.SpelledBy s) (him : im.ImaginarySpelledBy t) :
      SpelledBy (.complex re im) (s ++ t)
  | imaginary {im s} (him : im.ImaginarySpelledBy s) :
      SpelledBy (.complex ⟨false, .integer 0⟩ im) s
  | real {re s} (hre : re.SpelledBy s) : SpelledBy (.real re) s

inductive SpelledBy : Option Mark → Shape → List Char → Prop
  | unmarked {shape s} (h : shape.SpelledBy s) : SpelledBy none shape s
  | exact {c shape s} (hc : c = 'e' ∨ c = 'E') (h : shape.SpelledBy s) :
      SpelledBy (some .exact) shape ('#' :: c :: s)
  | inexact {c shape s} (hc : c = 'i' ∨ c = 'I') (h : shape.SpelledBy s) :
      SpelledBy (some .inexact) shape ('#' :: c :: s)

variable {s t x rest ds : List Char} {c : Char} {negative : Bool} {e : Int} {m : Magnitude}

theorem Magnitude.SpelledBy.begins (h : m.SpelledBy s) : ∃ c r, s = c :: r ∧ Opens c := by
  cases h with
  | wholeDecimal hds | exponentDecimal hds | fraction hds | integer hds =>
    obtain ⟨c, r, rfl, hc⟩ := hds.begins
    exact ⟨c, _, rfl, hc⟩
  | pointDecimal => exact ⟨_, _, rfl, .inr rfl⟩

/-! ### Spellings are read to their end -/

/-- What may stand behind a real: nothing, an imaginary part, or the `i` at the end of one. -/
def Follows (x : List Char) : Prop := ∀ c ∈ x.head?, c = 'i' ∨ c = '+' ∨ c = '-'

theorem follows_nil : Follows [] := by simp [Follows]

theorem follows_i (s : List Char) : Follows ('i' :: s) := by simp [Follows]

theorem Follows.endsInteger (hx : Follows x) : EndsInteger x := by
  intro c hc
  obtain rfl | rfl | rfl := hx c hc <;> decide

theorem sign?_append (h : Sign negative s) (x : List Char) :
    sign? (s ++ x) = some (negative, x) := by
  cases h <;> rfl

theorem optionalSign_append (h : SignIfAny negative s) (hc : Opens c) (x : List Char) :
    optionalSign (s ++ c :: x) = (negative, c :: x) := by
  cases h with
  | absent => rw [List.nil_append, optionalSign, sign?_of_opens hc]; rfl
  | present h => rw [optionalSign, sign?_append h]; rfl

theorem exponent?_append (h : Exponent e s) (hx : EndsDigits x) :
    exponent? (s ++ x) = some (e, x) := by
  cases h with
  | @mk letter negative sign ds hletter hs hds =>
    obtain ⟨c, r, hcons, hc⟩ := hds.begins
    have hsign : optionalSign (sign ++ (ds ++ x)) = (negative, ds ++ x) := by
      rw [hcons]
      exact optionalSign_append hs hc _
    rw [List.cons_append, List.append_assoc, exponent?, if_pos hletter, hsign]
    simp [digits?_append hds hx]

theorem optionalExponent_append (h : ExponentIfAny e s) (hx : Follows x) :
    optionalExponent (s ++ x) = (e, x) := by
  cases h with
  | absent => rw [List.nil_append, optionalExponent, exponent?_eq_none hx.endsInteger]; rfl
  | present h => rw [optionalExponent, exponent?_append h hx.endsInteger.endsDigits]; rfl

theorem Exponent.endsDigits (h : Exponent e s) (x : List Char) : EndsDigits (s ++ x) := by
  cases h with
  | mk hletter =>
    rintro c ⟨⟩
    obtain rfl | rfl := hletter <;> decide

theorem ExponentIfAny.endsDigits (h : ExponentIfAny e s) (hx : Follows x) :
    EndsDigits (s ++ x) := by
  cases h with
  | absent => exact hx.endsInteger.endsDigits
  | present h => exact h.endsDigits x

theorem endsDigits_cons (hc : c.isDigit = false) (s : List Char) : EndsDigits (c :: s) := by
  simpa [EndsDigits] using hc

theorem wholeDecimal?_append {whole places : List Char} (hwhole : Digits whole)
    (hplaces : ∀ c ∈ places, c.isDigit = true) (he : ExponentIfAny e s) (hx : Follows x) :
    wholeDecimal? (whole ++ '.' :: (places ++ (s ++ x))) =
      some (.decimal (digitsValue (whole ++ places)) places.length e, x) := by
  have hspan : (places ++ (s ++ x)).span Char.isDigit = (places, s ++ x) :=
    span_digits hplaces (he.endsDigits hx)
  rw [wholeDecimal?, digits?_append hwhole (endsDigits_cons (by decide) _)]
  simp only [Option.bind_eq_bind, Option.bind_some, hspan, optionalExponent_append he hx]
  rfl

theorem pointDecimal?_append {places : List Char} (hplaces : Digits places)
    (he : ExponentIfAny e s) (hx : Follows x) :
    pointDecimal? ('.' :: (places ++ (s ++ x))) =
      some (.decimal (digitsValue places) places.length e, x) := by
  rw [pointDecimal?, digits?_append hplaces (he.endsDigits hx)]
  simp [optionalExponent_append he hx]

theorem exponentDecimal?_append {whole : List Char} (hwhole : Digits whole) (he : Exponent e s)
    (hx : EndsDigits x) :
    exponentDecimal? (whole ++ (s ++ x)) = some (.decimal (digitsValue whole) 0 e, x) := by
  rw [exponentDecimal?, digits?_append hwhole (he.endsDigits x)]
  simp [exponent?_append he hx]

theorem fraction?_append {n d : List Char} (hn : Digits n) (hd : Digits d) (hx : EndsDigits x) :
    fraction? (n ++ '/' :: (d ++ x)) = some (.fraction (digitsValue n) (digitsValue d), x) := by
  rw [fraction?, digits?_append hn (endsDigits_cons (by decide) _)]
  simp [digits?_append hd hx]

theorem unsigned?_append (h : m.SpelledBy s) (hx : Follows x) :
    unsigned? (s ++ x) = some (m, x) := by
  have hdigits : EndsDigits x := hx.endsInteger.endsDigits
  cases h with
  | wholeDecimal hwhole hplaces he =>
    rw [List.append_assoc, List.cons_append, List.append_assoc, unsigned?,
      wholeDecimal?_append hwhole hplaces he hx]
    rfl
  | @pointDecimal places e s hplaces he =>
    have hwhole : wholeDecimal? ('.' :: (places ++ (s ++ x))) = none := rfl
    rw [List.cons_append, List.append_assoc, unsigned?, hwhole, pointDecimal?_append hplaces he hx]
    rfl
  | @exponentDecimal whole e s hwhole he =>
    have hpoint : (s ++ x).head? ≠ some '.' := by
      cases he with
      | mk hletter => obtain rfl | rfl := hletter <;> simp
    rw [List.append_assoc, unsigned?, wholeDecimal?_digits hwhole (he.endsDigits x) hpoint,
      pointDecimal?_digits hwhole, exponentDecimal?_append hwhole he hdigits]
    rfl
  | @fraction n d hn hd =>
    have hslash : EndsDigits ('/' :: (d ++ x)) := endsDigits_cons (by decide) _
    rw [List.append_assoc, List.cons_append, unsigned?, wholeDecimal?_digits hn hslash (by simp),
      pointDecimal?_digits hn, exponentDecimal?_digits hn hslash rfl,
      fraction?_append hn hd hdigits]
    rfl
  | integer hn => exact unsigned?_integer hn hx.endsInteger

theorem special?_append {y : Binary64} (h : Special y s) (x : List Char) :
    special? (s ++ x) = some (⟨false, .special y⟩, x) := by
  cases h <;> rfl

theorem special?_unsigned (hs : SignIfAny negative s) (h : m.SpelledBy t) (x : List Char) :
    special? (s ++ (t ++ x)) = none := by
  obtain ⟨c, r, rfl, hc⟩ := h.begins
  cases hs with
  | absent => exact special?_of_opens hc _
  | present hs => cases hs <;> exact special?_sign_of_opens hc _ _

theorem real?_append {r : Signed} (h : r.SpelledBy s) (hx : Follows x) :
    real? (s ++ x) = some (r, x) := by
  cases h with
  | special h => rw [real?, special?_append h]; rfl
  | @unsigned negative m s t hs h =>
    have hsign : optionalSign (s ++ (t ++ x)) = (negative, t ++ x) := by
      obtain ⟨c, r, rfl, hc⟩ := h.begins
      exact optionalSign_append hs hc _
    rw [List.append_assoc, real?, special?_unsigned hs h, hsign]
    simp [unsigned?_append h hx]

theorem imaginary?_spelled {r : Signed} (h : r.ImaginarySpelledBy s) :
    imaginary? s = some (r, []) := by
  cases h with
  | special h => rw [imaginary?, special?_append h]; rfl
  | unit hs => cases hs <;> rfl
  | @unsigned negative m s t hs h =>
    rw [imaginary?, special?_unsigned (.present hs) h, signed?, sign?_append hs]
    simp [unsigned?_append h (follows_i [])]

theorem imaginary?_of_real {r : Signed} (h : r.SpelledBy s) : imaginary? s = none := by
  cases h with
  | special h => cases h <;> rfl
  | @unsigned negative m s t hs h =>
    have hspecial : special? (s ++ t) = none := by simpa using special?_unsigned hs h []
    have hread : unsigned? t = some (m, []) := by simpa using unsigned?_append h follows_nil
    rw [imaginary?, hspecial]
    cases hs with
    | absent =>
      obtain ⟨c, r, rfl, hc⟩ := h.begins
      simp [signed?, sign?_of_opens hc]
    | present hs => simp [signed?, sign?_append hs, hread]

theorem imaginary?_i : imaginary? ['i'] = none := rfl

theorem real?_of_imaginary {r : Signed} (h : r.ImaginarySpelledBy s) :
    real? s = none ∨ ∃ re, real? s = some (re, ['i']) := by
  cases h with
  | special h => exact .inr ⟨_, real?_append (.special h) (follows_i [])⟩
  | unit hs => cases hs <;> exact .inl rfl
  | unsigned hs h =>
    rw [← List.append_assoc]
    exact .inr ⟨_, real?_append (.unsigned (.present hs) h) (follows_i [])⟩

theorem Signed.ImaginarySpelledBy.follows {r : Signed} (h : r.ImaginarySpelledBy s) :
    Follows s := by
  intro c hc
  cases h with
  | special h => cases h <;> cases hc <;> decide
  | unit hs | unsigned hs => cases hs <;> cases hc <;> decide

theorem shape?_spelled {shape : Shape} (h : shape.SpelledBy s) : shape? s = some shape := by
  have hparts : parts? s = some (shape, []) := by
    cases h with
    | complex hre him =>
      simp [parts?, real?_append hre him.follows, imaginary?_spelled him]
    | imaginary him =>
      rcases real?_of_imaginary him with hreal | ⟨re, hreal⟩
      · simp [parts?, hreal, imaginary?_spelled him]
      · simp [parts?, hreal, imaginary?_i, imaginary?_spelled him]
    | @real re _ hre =>
      have hreal : real? s = some (re, []) := by simpa using real?_append hre follows_nil
      have hnone : imaginary? [] = none := rfl
      simp [parts?, hreal, hnone, imaginary?_of_real hre]
  rw [shape?, hparts]

/-! ### Only spellings are read -/

theorem digits?_sound (h : digits? s = some (ds, rest)) : s = ds ++ rest ∧ Digits ds := by
  rw [digits?, List.span_eq_takeWhile_dropWhile] at h
  have happend : s.takeWhile Char.isDigit ++ s.dropWhile Char.isDigit = s :=
    List.takeWhile_append_dropWhile
  have hall : ∀ c ∈ s.takeWhile Char.isDigit, c.isDigit = true :=
    List.all_eq_true.mp List.all_takeWhile
  split at h
  · cases h
  · next hne heq =>
    cases h
    obtain ⟨htake, hdrop⟩ := Prod.mk.inj heq
    rw [htake, hdrop] at happend
    rw [htake] at hall
    exact ⟨happend.symm, hne, hall⟩

theorem sign?_sound (h : sign? s = some (negative, rest)) :
    ∃ t, s = t ++ rest ∧ Sign negative t := by
  unfold sign? at h
  split at h <;> cases h
  · exact ⟨_, rfl, .plus⟩
  · exact ⟨_, rfl, .minus⟩

theorem optionalSign_sound (h : optionalSign s = (negative, rest)) :
    ∃ t, s = t ++ rest ∧ SignIfAny negative t := by
  rw [optionalSign] at h
  cases hs : sign? s with
  | none =>
    rw [hs] at h
    cases h
    exact ⟨[], rfl, .absent⟩
  | some r =>
    rw [hs] at h
    obtain rfl : r = (negative, rest) := h
    obtain ⟨t, ht, hsign⟩ := sign?_sound hs
    exact ⟨t, ht, .present hsign⟩

theorem exponent?_sound (h : exponent? s = some (e, rest)) : ∃ t, s = t ++ rest ∧ Exponent e t := by
  cases s with
  | nil => cases h
  | cons letter s =>
    rw [exponent?] at h
    split at h
    · next hletter =>
      rcases hsign : optionalSign s with ⟨negative, s'⟩
      rw [hsign] at h
      obtain ⟨⟨ds, s''⟩, hread, hresult⟩ := Option.bind_eq_some_iff.mp h
      cases hresult
      obtain ⟨sign, rfl, hs⟩ := optionalSign_sound hsign
      obtain ⟨rfl, hds⟩ := digits?_sound hread
      exact ⟨letter :: (sign ++ ds), by simp, .mk hletter hs hds⟩
    · cases h

theorem optionalExponent_sound (h : optionalExponent s = (e, rest)) :
    ∃ t, s = t ++ rest ∧ ExponentIfAny e t := by
  rw [optionalExponent] at h
  cases hs : exponent? s with
  | none =>
    rw [hs] at h
    cases h
    exact ⟨[], rfl, .absent⟩
  | some r =>
    rw [hs] at h
    obtain rfl : r = (e, rest) := h
    obtain ⟨t, ht, he⟩ := exponent?_sound hs
    exact ⟨t, ht, .present he⟩

theorem wholeDecimal?_sound (h : wholeDecimal? s = some (m, rest)) :
    ∃ t, s = t ++ rest ∧ m.SpelledBy t := by
  obtain ⟨⟨whole, s'⟩, hread, hresult⟩ := Option.bind_eq_some_iff.mp h
  obtain ⟨rfl, hwhole⟩ := digits?_sound hread
  cases s' with
  | nil => cases hresult
  | cons c s' =>
    by_cases hc : c = '.'
    · subst hc
      have hall : ∀ c ∈ s'.takeWhile Char.isDigit, c.isDigit = true :=
        List.all_eq_true.mp List.all_takeWhile
      have happend : s'.takeWhile Char.isDigit ++ s'.dropWhile Char.isDigit = s' :=
        List.takeWhile_append_dropWhile
      rcases he : optionalExponent (s'.dropWhile Char.isDigit) with ⟨e, s''⟩
      simp only [List.span_eq_takeWhile_dropWhile, he] at hresult
      cases hresult
      obtain ⟨t, ht, hexponent⟩ := optionalExponent_sound he
      refine ⟨_, ?_, .wholeDecimal hwhole hall hexponent⟩
      rw [ht] at happend
      simp [happend]
    · simp [hc] at hresult

theorem pointDecimal?_sound (h : pointDecimal? s = some (m, rest)) :
    ∃ t, s = t ++ rest ∧ m.SpelledBy t := by
  unfold pointDecimal? at h
  split at h
  · obtain ⟨⟨places, s'⟩, hread, hresult⟩ := Option.bind_eq_some_iff.mp h
    obtain ⟨rfl, hplaces⟩ := digits?_sound hread
    rcases he : optionalExponent s' with ⟨e, s''⟩
    simp only [he] at hresult
    cases hresult
    obtain ⟨t, rfl, hexponent⟩ := optionalExponent_sound he
    exact ⟨_, by simp, .pointDecimal hplaces hexponent⟩
  · cases h

theorem exponentDecimal?_sound (h : exponentDecimal? s = some (m, rest)) :
    ∃ t, s = t ++ rest ∧ m.SpelledBy t := by
  obtain ⟨⟨whole, s'⟩, hread, hresult⟩ := Option.bind_eq_some_iff.mp h
  obtain ⟨rfl, hwhole⟩ := digits?_sound hread
  obtain ⟨⟨e, s''⟩, he, hresult⟩ := Option.bind_eq_some_iff.mp hresult
  cases hresult
  obtain ⟨t, rfl, hexponent⟩ := exponent?_sound he
  exact ⟨_, by simp, .exponentDecimal hwhole hexponent⟩

theorem fraction?_sound (h : fraction? s = some (m, rest)) :
    ∃ t, s = t ++ rest ∧ m.SpelledBy t := by
  obtain ⟨⟨n, s'⟩, hread, hresult⟩ := Option.bind_eq_some_iff.mp h
  obtain ⟨rfl, hn⟩ := digits?_sound hread
  cases s' with
  | nil => cases hresult
  | cons c s' =>
    by_cases hc : c = '/'
    · subst hc
      obtain ⟨⟨d, s''⟩, hdenominator, hfraction⟩ := Option.bind_eq_some_iff.mp hresult
      cases hfraction
      obtain ⟨rfl, hd⟩ := digits?_sound hdenominator
      exact ⟨_, by simp, .fraction hn hd⟩
    · simp [hc] at hresult

theorem integer?_sound (h : integer? s = some (m, rest)) :
    ∃ t, s = t ++ rest ∧ m.SpelledBy t := by
  obtain ⟨⟨n, s'⟩, hread, hresult⟩ := Option.bind_eq_some_iff.mp h
  obtain ⟨rfl, hn⟩ := digits?_sound hread
  cases hresult
  exact ⟨n, rfl, .integer hn⟩

theorem unsigned?_sound (h : unsigned? s = some (m, rest)) :
    ∃ t, s = t ++ rest ∧ m.SpelledBy t := by
  simp only [unsigned?, Option.orElse_eq_orElse, Option.orElse_eq_or, Option.or_eq_some_iff] at h
  rcases h with h | ⟨-, h | ⟨-, h | ⟨-, h | ⟨-, h⟩⟩⟩⟩
  · exact wholeDecimal?_sound h
  · exact pointDecimal?_sound h
  · exact exponentDecimal?_sound h
  · exact fraction?_sound h
  · exact integer?_sound h

theorem unsigned?_iff : unsigned? s = some (m, []) ↔ m.SpelledBy s := by
  constructor
  · intro h
    obtain ⟨t, rfl, ht⟩ := unsigned?_sound h
    rwa [List.append_nil]
  · intro h
    simpa using unsigned?_append h follows_nil

theorem special?_sound {r : Signed} (h : special? s = some (r, rest)) :
    ∃ t y, s = t ++ rest ∧ r = ⟨false, .special y⟩ ∧ Special y t := by
  unfold special? at h
  split at h <;> cases h
  · exact ⟨_, _, rfl, rfl, .positive⟩
  · exact ⟨_, _, rfl, rfl, .negative⟩
  · exact ⟨_, _, rfl, rfl, .plusNaN⟩
  · exact ⟨_, _, rfl, rfl, .minusNaN⟩

theorem real?_sound {r : Signed} (h : real? s = some (r, rest)) :
    ∃ t, s = t ++ rest ∧ r.SpelledBy t := by
  simp only [real?, Option.orElse_eq_orElse, Option.orElse_eq_or, Option.or_eq_some_iff] at h
  rcases h with h | ⟨-, h⟩
  · obtain ⟨t, y, ht, rfl, hspecial⟩ := special?_sound h
    exact ⟨t, ht, .special hspecial⟩
  · rcases hsign : optionalSign s with ⟨negative, s'⟩
    rw [hsign] at h
    obtain ⟨⟨m, s''⟩, hread, hresult⟩ := Option.bind_eq_some_iff.mp h
    cases hresult
    obtain ⟨sign, rfl, hs⟩ := optionalSign_sound hsign
    obtain ⟨t, rfl, hm⟩ := unsigned?_sound hread
    exact ⟨sign ++ t, by simp, .unsigned hs hm⟩

theorem signed?_sound {r : Signed} (h : signed? s = some (r, rest)) :
    ∃ t, s = t ++ rest ∧ r.ImaginarySpelledBy (t ++ ['i']) := by
  obtain ⟨⟨negative, s'⟩, hsign, hresult⟩ := Option.bind_eq_some_iff.mp h
  obtain ⟨sign, rfl, hs⟩ := sign?_sound hsign
  cases hread : unsigned? s' with
  | none =>
    simp only [hread] at hresult
    cases hresult
    exact ⟨sign, rfl, .unit hs⟩
  | some r =>
    obtain ⟨m, s''⟩ := r
    simp only [hread] at hresult
    cases hresult
    obtain ⟨t, rfl, hm⟩ := unsigned?_sound hread
    refine ⟨sign ++ t, by simp, ?_⟩
    rw [List.append_assoc]
    exact .unsigned hs hm

theorem imaginary?_sound {r : Signed} (h : imaginary? s = some (r, rest)) :
    ∃ t, s = t ++ rest ∧ r.ImaginarySpelledBy t := by
  obtain ⟨⟨im, s'⟩, hread, hresult⟩ := Option.bind_eq_some_iff.mp h
  have hi : s' = 'i' :: rest ∧ im = r := by
    cases s' with
    | nil => cases hresult
    | cons c s' =>
      by_cases hc : c = 'i'
      · subst hc
        cases hresult
        exact ⟨rfl, rfl⟩
      · simp [hc] at hresult
  obtain ⟨rfl, rfl⟩ := hi
  simp only [Option.orElse_eq_orElse, Option.orElse_eq_or, Option.or_eq_some_iff] at hread
  rcases hread with h | ⟨-, h⟩
  · obtain ⟨t, y, rfl, rfl, hspecial⟩ := special?_sound h
    exact ⟨t ++ ['i'], by simp, .special hspecial⟩
  · obtain ⟨t, rfl, him⟩ := signed?_sound h
    exact ⟨t ++ ['i'], by simp, him⟩

/-! ### Numbers -/

theorem shape?_sound {shape : Shape} (h : shape? s = some shape) : shape.SpelledBy s := by
  have hparts : parts? s = some (shape, []) := by
    unfold shape? at h
    split at h
    · next heq =>
      cases h
      exact heq
    · cases h
  simp only [parts?, Option.orElse_eq_orElse, Option.orElse_eq_or, Option.or_eq_some_iff] at hparts
  rcases hparts with h | ⟨-, h | ⟨-, h⟩⟩
  · obtain ⟨⟨re, s'⟩, hreal, h⟩ := Option.bind_eq_some_iff.mp h
    obtain ⟨⟨im, s''⟩, himaginary, hresult⟩ := Option.bind_eq_some_iff.mp h
    cases hresult
    obtain ⟨t, rfl, hre⟩ := real?_sound hreal
    obtain ⟨u, rfl, him⟩ := imaginary?_sound himaginary
    rw [List.append_nil]
    exact .complex hre him
  · obtain ⟨⟨im, s'⟩, himaginary, hresult⟩ := Option.bind_eq_some_iff.mp h
    cases hresult
    obtain ⟨t, rfl, him⟩ := imaginary?_sound himaginary
    rw [List.append_nil]
    exact .imaginary him
  · obtain ⟨⟨re, s'⟩, hreal, hresult⟩ := Option.bind_eq_some_iff.mp h
    cases hresult
    obtain ⟨t, rfl, hre⟩ := real?_sound hreal
    rw [List.append_nil]
    exact .real hre

theorem shape?_iff {shape : Shape} : shape? s = some shape ↔ shape.SpelledBy s :=
  ⟨shape?_sound, shape?_spelled⟩

def letters : List Char := "0123456789+-./eEinfa".toList

theorem Digits.subset_letters (h : ∀ c ∈ ds, c.isDigit = true) : ds ⊆ letters := by
  have hsubset : "0123456789".toList ⊆ letters := by decide
  exact fun c hc => hsubset (mem_digits (h c hc))

theorem Sign.subset_letters (h : Sign negative s) : s ⊆ letters := by
  cases h <;> decide

theorem SignIfAny.subset_letters (h : SignIfAny negative s) : s ⊆ letters := by
  cases h with
  | absent => exact List.nil_subset _
  | present h => exact h.subset_letters

theorem Exponent.subset_letters (h : Exponent e s) : s ⊆ letters := by
  cases h with
  | mk hletter hs hds =>
    refine List.cons_subset.mpr ⟨?_, List.append_subset.mpr
      ⟨hs.subset_letters, Digits.subset_letters hds.2⟩⟩
    obtain rfl | rfl := hletter <;> decide

theorem ExponentIfAny.subset_letters (h : ExponentIfAny e s) : s ⊆ letters := by
  cases h with
  | absent => exact List.nil_subset _
  | present h => exact h.subset_letters

theorem Magnitude.SpelledBy.subset_letters (h : m.SpelledBy s) : s ⊆ letters := by
  have hpoint : '.' ∈ letters := by decide
  have hslash : '/' ∈ letters := by decide
  cases h with
  | wholeDecimal hwhole hplaces he =>
    simp [hpoint, Digits.subset_letters hwhole.2, Digits.subset_letters hplaces, he.subset_letters]
  | pointDecimal hplaces he =>
    simp [hpoint, Digits.subset_letters hplaces.2, he.subset_letters]
  | exponentDecimal hwhole he => simp [Digits.subset_letters hwhole.2, he.subset_letters]
  | fraction hn hd =>
    simp [hslash, Digits.subset_letters hn.2, Digits.subset_letters hd.2]
  | integer hn => exact Digits.subset_letters hn.2

theorem Special.subset_letters {y : Binary64} (h : Special y s) : s ⊆ letters := by
  cases h <;> decide

theorem Signed.SpelledBy.subset_letters {r : Signed} (h : r.SpelledBy s) : s ⊆ letters := by
  cases h with
  | special h => exact h.subset_letters
  | unsigned hs h => exact List.append_subset.mpr ⟨hs.subset_letters, h.subset_letters⟩

theorem Signed.ImaginarySpelledBy.subset_letters {r : Signed} (h : r.ImaginarySpelledBy s) :
    s ⊆ letters := by
  have hi : ['i'] ⊆ letters := by decide
  cases h with
  | special h => exact List.append_subset.mpr ⟨h.subset_letters, hi⟩
  | unit hs => exact List.append_subset.mpr ⟨hs.subset_letters, hi⟩
  | unsigned hs h =>
    exact List.append_subset.mpr
      ⟨hs.subset_letters, List.append_subset.mpr ⟨h.subset_letters, hi⟩⟩

theorem Shape.SpelledBy.subset_letters {shape : Shape} (h : shape.SpelledBy s) : s ⊆ letters := by
  cases h with
  | complex hre him => exact List.append_subset.mpr ⟨hre.subset_letters, him.subset_letters⟩
  | imaginary him => exact him.subset_letters
  | real hre => exact hre.subset_letters

/-! ### Marks -/

variable {mark : Option Mark} {shape : Shape}

theorem mark?_spelled (h : SpelledBy mark shape s) :
    ∃ body, mark? s = some (mark, body) ∧ shape.SpelledBy body := by
  cases h with
  | unmarked h =>
    have hhash : '#' ∉ s := fun hmem => absurd (h.subset_letters hmem) (by decide)
    exact ⟨s, mark?_unmarked fun hhead => hhash (List.mem_of_head? hhead), h⟩
  | exact hc h => exact ⟨_, by simp [mark?, hc], h⟩
  | @inexact c shape s hc h =>
    have hne : ¬(c = 'e' ∨ c = 'E') := by
      rintro (rfl | rfl) <;> simp at hc
    exact ⟨_, by rw [mark?, if_neg hne, if_pos hc], h⟩

theorem mark?_sound {body : List Char} (h : mark? s = some (mark, body))
    (hbody : shape.SpelledBy body) : SpelledBy mark shape s := by
  unfold mark? at h
  split at h
  · next c rest =>
    by_cases hexact : c = 'e' ∨ c = 'E'
    · rw [if_pos hexact] at h
      cases h
      exact .exact hexact hbody
    · rw [if_neg hexact] at h
      by_cases hinexact : c = 'i' ∨ c = 'I'
      · rw [if_pos hinexact] at h
        cases h
        exact .inexact hinexact hbody
      · simp [hinexact] at h
  · cases h
  · cases h
    exact .unmarked hbody

/-- The texts that are read as numbers are the spellings of numbers. -/
theorem number?_iff {r : Except ArithmeticFault Number} :
    number? s = some r ↔ ∃ mark shape, SpelledBy mark shape s ∧ shape.denote mark = r := by
  constructor
  · intro h
    obtain ⟨⟨mark, body⟩, hmark, h⟩ := Option.bind_eq_some_iff.mp h
    obtain ⟨shape, hshape, hresult⟩ := Option.bind_eq_some_iff.mp h
    exact ⟨mark, shape, mark?_sound hmark (shape?_sound hshape), Option.some.inj hresult⟩
  · intro ⟨mark, shape, hspelled, hdenote⟩
    obtain ⟨body, hmark, hbody⟩ := mark?_spelled hspelled
    simp [number?, hmark, shape?_spelled hbody, hdenote]

end BeginningStudent.Literal
