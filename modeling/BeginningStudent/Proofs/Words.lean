import BeginningStudent.Proofs.Clean
import BeginningStudent.Proofs.Lines
import BeginningStudent.Value.Text

/-!
# Tokens in their context

How the text of one token is scanned when other text follows it. Brackets, quote marks and strings
end by themselves, a word by the end of the text or a delimiter (`scan_string`, `scan_word`).
-/

namespace BeginningStudent.Token

/-! ### One token -/

theorem scan_nil : scan [] = ([], none) := by simp [scan_eq, skipBlanks]

theorem skipBlanks_of_solid {c : Char} {rest : List Char} (hblank : Text.isBlank c = false)
    (hline : c ≠ ';') (hblock : ∀ rest', c = '#' → rest ≠ '|' :: rest') :
    skipBlanks (c :: rest) = .ok (c :: rest) := by
  rw [skipBlanks, if_neg (by simp [hblank])]
  · exact hline
  · exact fun rest' hc hrest => hblock rest' hc hrest

/-- A text is scanned by its first token and what is behind it. -/
theorem scan_cons {c : Char} {rest rest' : List Char} {t : Token}
    (hblank : Text.isBlank c = false) (hline : c ≠ ';')
    (hblock : ∀ rest', c = '#' → rest ≠ '|' :: rest') (h : next c rest = .ok (t, rest')) :
    scan (c :: rest) = (t :: (scan rest').1, (scan rest').2) := by
  rw [scan_eq, skipBlanks_of_solid hblank hline hblock]
  simp only [h]

theorem scan_space (x : List Char) : scan (' ' :: x) = scan x := by
  have hskip : skipBlanks (' ' :: x) = skipBlanks x := by
    rw [skipBlanks, if_pos (by decide)]
    all_goals simp
  rw [scan_eq, hskip, ← scan_eq]

theorem scan_opening (b : Bracket) (x : List Char) :
    scan (b.opening :: x) = (.opening b :: (scan x).1, (scan x).2) := by
  have hnext : next b.opening x = .ok (.opening b, x) := by rw [next, b.ofOpening?_opening]
  cases b <;> exact scan_cons (by decide) (by decide) (by simp [Bracket.opening]) hnext

theorem scan_closing (b : Bracket) (x : List Char) :
    scan (b.closing :: x) = (.closing b :: (scan x).1, (scan x).2) := by
  have hopen : Bracket.ofOpening? b.closing = none := by cases b <;> rfl
  have hnext : next b.closing x = .ok (.closing b, x) := by
    rw [next, hopen, b.ofClosing?_closing]
  cases b <;> exact scan_cons (by decide) (by decide) (by simp [Bracket.closing]) hnext

theorem scan_quote (x : List Char) :
    scan ('\'' :: x) = (.quote :: (scan x).1, (scan x).2) :=
  scan_cons (by decide) (by decide) (by simp) rfl

/-! ### Strings -/

theorem stringContents_escape (before : List Char) (c : Char) (x : List Char) :
    stringContents before (Value.escape c ++ x) = stringContents (c :: before) x := by
  by_cases hc : c ∈ ['"', '\\', '\n', '\t', '\r']
  · simp only [List.mem_cons, List.not_mem_nil, or_false] at hc
    rcases hc with rfl | rfl | rfl | rfl | rfl <;> rfl
  · simp only [List.mem_cons, List.not_mem_nil, or_false, not_or] at hc
    obtain ⟨hquote, hbackslash, hline, htab, hreturn⟩ := hc
    have hplain : Value.escape c = [c] := by
      simp [Value.escape, hquote, hbackslash, hline, htab, hreturn]
    rw [hplain, List.singleton_append, stringContents]
    · exact hquote
    all_goals simp [hbackslash]

theorem stringContents_escaped (before s x : List Char) :
    stringContents before (s.flatMap Value.escape ++ '"' :: x) =
      .ok (before.reverse ++ s, x) := by
  induction s generalizing before with
  | nil => simp [stringContents]
  | cons c s ih =>
    rw [List.flatMap_cons, List.append_assoc, stringContents_escape, ih]
    simp

/-- What begins with a quotation mark is scanned as the string up to the next one. -/
theorem scan_quotation {contents s rest : List Char}
    (h : stringContents [] s = .ok (contents, rest)) :
    scan ('"' :: s) = (.string (String.ofList contents) :: (scan rest).1, (scan rest).2) := by
  have hnext : next '"' s = .ok (.string (String.ofList contents), rest) := by
    rw [next, h]
    rfl
  exact scan_cons (by decide) (by decide) (by simp) hnext

/-- A string that is shown is scanned back, whatever follows it. -/
theorem scan_string (s : String) (x : List Char) :
    scan (Value.stringText s ++ x) = (.string s :: (scan x).1, (scan x).2) := by
  have hshape : Value.stringText s ++ x = '"' :: (s.toList.flatMap Value.escape ++ '"' :: x) := by
    simp [Value.stringText]
  rw [hshape, scan_quotation (stringContents_escaped [] s.toList x)]
  simp

/-! ### Words -/

/-- The text ends the word before it: it is empty or begins with a delimiter. -/
def EndsWord (x : List Char) : Prop := ∀ c ∈ x.head?, isDelimiter c = true

theorem endsWord_nil : EndsWord [] := by simp [EndsWord]

theorem endsWord_cons {c : Char} (hc : isDelimiter c = true) (x : List Char) :
    EndsWord (c :: x) := by
  simpa [EndsWord] using hc

theorem takeWhile_append_endsWord {word x : List Char} (hword : Undelimited word)
    (hx : EndsWord x) :
    (word ++ x).takeWhile (!isDelimiter ·) = word ∧ (word ++ x).dropWhile (!isDelimiter ·) = x := by
  induction word with
  | nil =>
    cases x with
    | nil => simp
    | cons c x =>
      have hc : isDelimiter c = true := hx c rfl
      simp [hc]
  | cons c word ih =>
    obtain ⟨hc, hword⟩ := List.forall_mem_cons.mp hword
    obtain ⟨htake, hdrop⟩ := ih hword
    simp [hc, htake, hdrop]

def booleanWords : List String := ["#t", "#T", "#true", "#f", "#F", "#false"]

theorem ofWord_eq {word : List Char} (h : ∀ s ∈ booleanWords, word ≠ s.toList) :
    ofWord word =
      match Literal.number? word with
      | some (.ok n) => .ok (.number n)
      | some (.error .divideByZero) => .error (.zeroDenominator (String.ofList word))
      | some (.error .noExactRepresentation) => .error (.noExactValue (String.ofList word))
      | none =>
        if word.head? = some '#' then .error (.badText (String.ofList word))
        else match Keyword.ofName? (String.ofList word) with
          | some k => .ok (.keyword k)
          | none => .ok (.name (String.ofList word)) := by
  have hspelled : ∀ {s : String}, String.ofList word = s → word = s.toList := by
    rintro _ rfl
    exact String.toList_ofList.symm
  unfold ofWord
  dsimp only
  split
  iterate 6 (next heq => exact absurd (hspelled heq) (h _ (by simp [booleanWords])))
  rfl

theorem ne_booleanWords {word : List Char} {r : Except ArithmeticFault Number}
    (h : Literal.number? word = some r) : ∀ s ∈ booleanWords, word ≠ s.toList := by
  have hnone : ∀ s ∈ booleanWords, Literal.number? s.toList = none := by decide
  rintro s hs rfl
  rw [hnone s hs] at h
  cases h

theorem ofWord_number {word : List Char} {z : Number} (h : Literal.number? word = some (.ok z)) :
    ofWord word = .ok (.number z) := by
  rw [ofWord_eq (ne_booleanWords h), h]

theorem ofWord_ne_comment {word rest : List Char} {t : Token} (h : ofWord word = .ok t) :
    word ≠ '#' :: '|' :: rest := by
  rintro rfl
  have hsecond : ∀ s ∈ booleanWords, s.toList[1]? ≠ some '|' := by decide
  rw [ofWord_eq fun s hs heq => hsecond s hs (by rw [← heq]; rfl)] at h
  have hnumber : Literal.number? ('#' :: '|' :: rest) = none := rfl
  rw [hnumber] at h
  cases h

theorem begins_with_word {c : Char} {word x : List Char} (hword : Undelimited (c :: word))
    (hblock : ∀ rest, c :: word ≠ '#' :: '|' :: rest) (hx : EndsWord x) :
    skipBlanks (c :: (word ++ x)) = .ok (c :: (word ++ x)) ∧
      next c (word ++ x) = (ofWord (c :: word)).map (·, x) := by
  obtain ⟨hc, hrest⟩ := List.forall_mem_cons.mp hword
  obtain ⟨hblank, hopen, hclose, hmark⟩ := isDelimiter_eq_false_iff.mp hc
  simp only [List.mem_cons, List.not_mem_nil, or_false, not_or] at hmark
  obtain ⟨hstring, hquote, hline, hbackquote, hcomma⟩ := hmark
  obtain ⟨htake, hdrop⟩ := takeWhile_append_endsWord hrest hx
  constructor
  · refine skipBlanks_of_solid hblank hline ?_
    rintro rest' rfl hrest'
    -- A vertical bar is no delimiter, so it could not follow the word.
    cases word with
    | nil =>
      have hbar : isDelimiter '|' = true := hx '|' (congrArg List.head? hrest')
      exact absurd hbar (by decide)
    | cons d word =>
      cases hrest'
      exact hblock _ rfl
  · rw [next, hopen, hclose]
    simp only [hquote, hstring, hbackquote, hcomma, or_self, if_false, htake, hdrop]
    cases ofWord (c :: word) <;> rfl

/-- A word is scanned as its token when it ends where the text ends or a delimiter follows. -/
theorem scan_word {word x : List Char} {t : Token} (hne : word ≠ []) (hword : Undelimited word)
    (h : ofWord word = .ok t) (hx : EndsWord x) :
    scan (word ++ x) = (t :: (scan x).1, (scan x).2) := by
  cases word with
  | nil => exact absurd rfl hne
  | cons c word =>
    obtain ⟨hskip, hnext⟩ := begins_with_word hword (fun _ => ofWord_ne_comment h) hx
    rw [h] at hnext
    rw [List.cons_append, scan_eq, hskip]
    simp only [hnext, Except.map]

theorem scan_word_error {word x : List Char} {e : ScanError} (hne : word ≠ [])
    (hword : Undelimited word) (hblock : ∀ rest, word ≠ '#' :: '|' :: rest)
    (h : ofWord word = .error e) (hx : EndsWord x) : scan (word ++ x) = ([], some e) := by
  cases word with
  | nil => exact absurd rfl hne
  | cons c word =>
    obtain ⟨hskip, hnext⟩ := begins_with_word hword hblock hx
    rw [h] at hnext
    rw [List.cons_append, scan_eq, hskip]
    simp only [hnext, Except.map]

/-! ### Names -/

/-- The text as it stands is one token, a name. Blanks around a name would not be part of it. -/
def IsName (s : String) : Prop := ofSource s = .ok [.name s]

theorem toList_of_ofWord {word : List Char} {s : String} (h : ofWord word = .ok (.name s)) :
    s.toList = word := by
  unfold ofWord at h
  dsimp only at h
  split at h
  any_goals cases h
  split at h
  any_goals cases h
  split at h
  · cases h
  · split at h
    · cases h
    · cases h
      exact String.toList_ofList

theorem isName_iff {s : String} :
    IsName s ↔ s.toList ≠ [] ∧ Undelimited s.toList ∧ ofWord s.toList = .ok (.name s) := by
  constructor
  · intro h
    have hscan := ofSource_ok h
    rw [scan_eq] at hscan
    split at hscan
    · cases hscan
    · cases hscan
    next c rest hskip =>
    split at hscan
    · cases hscan
    next t rest' hnext =>
    obtain ⟨rfl, -⟩ := List.cons.inj (Prod.mk.inj hscan).1
    obtain ⟨hblank, hline, -⟩ := skipBlanks_cons hskip
    rcases next_word hblank hline hnext with ⟨_, h'⟩ | ⟨_, h'⟩ | h' | ⟨_, h'⟩ | ⟨hc, hword, -⟩
    · cases h'
    · cases h'
    · cases h'
    · cases h'
    · have hs := toList_of_ofWord hword
      have hrest := undelimited_takeWhile rest
      rw [hs]
      exact ⟨List.cons_ne_nil _ _, List.forall_mem_cons.mpr ⟨hc, hrest⟩, hword⟩
  · intro ⟨hne, hword, htoken⟩
    have hscan := scan_word hne hword htoken endsWord_nil
    rw [List.append_nil, scan_nil] at hscan
    simp [IsName, ofSource, hscan]

theorem scan_name {s : String} (hs : IsName s) {x : List Char} (hx : EndsWord x) :
    scan (s.toList ++ x) = (.name s :: (scan x).1, (scan x).2) := by
  obtain ⟨hne, hword, htoken⟩ := isName_iff.mp hs
  exact scan_word hne hword htoken hx

theorem keyword_spelling {s : String} {k : Keyword} (h : Keyword.ofName? s = some k) :
    s = k.name ∨ s = "λ" := by
  unfold Keyword.ofName? at h
  split at h <;> cases h <;> first | exact .inl rfl | exact .inr rfl

/-- The name of a constructor is no keyword and no number. -/
theorem ofWord_make (s : String) :
    ofWord ("make-" ++ s).toList = .ok (.name ("make-" ++ s)) := by
  have hword : ("make-" ++ s).toList = 'm' :: ("ake-".toList ++ s.toList) := by
    rw [String.toList_append]
    rfl
  have hhead : ("make-" ++ s).toList.head? = some 'm' := by
    rw [hword]
    rfl
  have hnumber : Literal.number? ("make-" ++ s).toList = none := by
    rw [hword]
    rfl
  have hkeyword : Keyword.ofName? ("make-" ++ s) = none := by
    have hfirst : ∀ k : Keyword, k.name.toList.head? ≠ some 'm' := by rintro ⟨⟩ <;> decide
    cases hk : Keyword.ofName? ("make-" ++ s) with
    | none => rfl
    | some k =>
      rcases keyword_spelling hk with h | h
      · exact absurd (h ▸ hhead) (hfirst k)
      · exact absurd (h ▸ hhead) (by decide)
  rw [ofWord_eq, hnumber, hhead, String.ofList_toList, hkeyword]
  · rfl
  · have hboolean : ∀ b ∈ booleanWords, b.toList.head? ≠ some 'm' := by decide
    intro b hb heq
    exact hboolean b hb (heq ▸ hhead)

theorem scan_make {s : String} (hs : Undelimited s.toList) {x : List Char} (hx : EndsWord x) :
    scan (("make-" ++ s).toList ++ x) = (.name ("make-" ++ s) :: (scan x).1, (scan x).2) := by
  have hundelimited : Undelimited ("make-" ++ s).toList := by
    have hmake : Undelimited "make-".toList := by decide
    rw [String.toList_append]
    intro c hc
    rcases List.mem_append.mp hc with hc | hc
    · exact hmake c hc
    · exact hs c hc
  exact scan_word (by simp [String.toList_append]) hundelimited (ofWord_make s) hx

end BeginningStudent.Token
