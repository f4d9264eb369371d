import BeginningStudent.Proofs.BlockComments
import BeginningStudent.Proofs.Words

/-!
# Lexemes and gaps

A text that is scanned is a row of lexemes with gaps around them: `Cuts s ts rest` cuts the text `s`
into the lexemes of the tokens `ts`, gaps and the text `rest`. What a lexeme or a gap can be depends
on what follows it, so each is judged in front of the text behind it. The tokens of a text are those
of the one way to cut it (`scan_of_cuts`, `cuts_of_scan`), and only a comment that does not end
between two lexemes is reported as one.
-/

namespace BeginningStudent

theorem Bracket.eq_opening {b : Bracket} {c : Char} (h : ofOpening? c = some b) :
    c = b.opening := by
  unfold ofOpening? at h
  repeat' split at h
  all_goals cases h
  all_goals assumption

theorem Bracket.eq_closing {b : Bracket} {c : Char} (h : ofClosing? c = some b) :
    c = b.closing := by
  unfold ofClosing? at h
  repeat' split at h
  all_goals cases h
  all_goals assumption

namespace Token

/-! ### Gaps -/

/-- A blank or comment in front of the text `rest`. A line comment ends with its line or, where the
text ends, without a line break. -/
inductive Filler : List Char → List Char → Prop
  | blank {c : Char} (hc : Text.isBlank c = true) (rest : List Char) : Filler [c] rest
  | line {s : List Char} (hs : '\n' ∉ s) (rest : List Char) : Filler (';' :: (s ++ ['\n'])) rest
  | lastLine {s : List Char} (hs : '\n' ∉ s) : Filler (';' :: s) []
  | block {s : List Char} (hs : IsBlockComment s) (rest : List Char) : Filler s rest

/-- Blanks and comments in front of the text `rest`. -/
inductive Gap : List Char → List Char → Prop
  | nil (rest : List Char) : Gap [] rest
  | cons {s g rest : List Char} (hs : Filler s (g ++ rest)) (hg : Gap g rest) : Gap (s ++ g) rest

/-! ### Lexemes -/

/-- What stands between the quotes of a string with the given contents. -/
inductive StringText : List Char → List Char → Prop
  | nil : StringText [] []
  | plain {c : Char} {s t : List Char} (hquote : c ≠ '"') (hescape : c ≠ '\\')
    (h : StringText s t) : StringText (c :: s) (c :: t)
  | escape {c d : Char} {s t : List Char} (hc : escaped? c = some d) (h : StringText s t) :
    StringText ('\\' :: c :: s) (d :: t)
  | joinLines {s t : List Char} (h : StringText s t) : StringText ('\\' :: '\n' :: s) t

/-- The text of a token in front of the text `rest`. A word is as long as it can be: the text ends
behind it, or a delimiter follows. -/
inductive Lexeme : List Char → Token → List Char → Prop
  | opening (b : Bracket) (rest : List Char) : Lexeme [b.opening] (.opening b) rest
  | closing (b : Bracket) (rest : List Char) : Lexeme [b.closing] (.closing b) rest
  | quote (rest : List Char) : Lexeme ['\''] .quote rest
  | string {s t : List Char} (h : StringText s t) (rest : List Char) :
    Lexeme ('"' :: (s ++ ['"'])) (.string (String.ofList t)) rest
  | word {s rest : List Char} {t : Token} (hne : s ≠ []) (hs : Undelimited s)
    (ht : ofWord s = .ok t) (hrest : EndsWord rest) : Lexeme s t rest

theorem Lexeme.ne_nil {l rest : List Char} {t : Token} (h : Lexeme l t rest) : l ≠ [] := by
  cases h with
  | word hne => exact hne
  | opening | closing | quote | string => simp

/-- The text is cut into the lexemes of the tokens, a gap before each of them and behind the last
one, and the text `rest` that is left. -/
inductive Cuts : List Char → List Token → List Char → Prop
  | gap {g rest : List Char} (hg : Gap g rest) : Cuts (g ++ rest) [] rest
  | token {g l s rest : List Char} {t : Token} {ts : List Token} (hg : Gap g (l ++ s))
    (hl : Lexeme l t s) (h : Cuts s ts rest) : Cuts (g ++ (l ++ s)) (t :: ts) rest

/-! ### Scanning what is cut -/

theorem dropLine_line {s : List Char} (hs : '\n' ∉ s) (rest : List Char) :
    dropLine (s ++ '\n' :: rest) = rest := by
  induction s with
  | nil => rfl
  | cons c s ih =>
    rw [List.mem_cons, not_or] at hs
    rw [List.cons_append, dropLine, if_neg (Ne.symm hs.1), ih hs.2]

theorem dropLine_lastLine {s : List Char} (hs : '\n' ∉ s) : dropLine s = [] := by
  induction s with
  | nil => rfl
  | cons c s ih =>
    rw [List.mem_cons, not_or] at hs
    rw [dropLine, if_neg (Ne.symm hs.1), ih hs.2]

theorem skipBlanks_line (s : List Char) : skipBlanks (';' :: s) = skipBlanks (dropLine s) := by
  rw [skipBlanks]

theorem skipBlanks_block {s rest : List Char} (h : dropComments 1 s = some rest) :
    skipBlanks ('#' :: '|' :: s) = skipBlanks rest := by
  rw [skipBlanks]
  split
  · next hs => rw [Option.some.inj (h.symm.trans hs)]
  · next hs => cases h.symm.trans hs

theorem skipBlanks_unclosed {s : List Char} (h : dropComments 1 s = none) :
    skipBlanks ('#' :: '|' :: s) = .error .unclosedComment := by
  rw [skipBlanks]
  split
  · next hs => cases h.symm.trans hs
  · rfl

theorem skipBlanks_filler {s rest : List Char} (h : Filler s rest) :
    skipBlanks (s ++ rest) = skipBlanks rest := by
  cases h with
  | @blank c hc =>
    have hline : c ≠ ';' := by
      rintro rfl
      exact absurd hc (by decide)
    have hmark : c ≠ '#' := by
      rintro rfl
      exact absurd hc (by decide)
    rw [List.singleton_append, skipBlanks, if_pos hc]
    · exact hline
    · exact fun _ hc _ => hmark hc
  | line hs =>
    rw [List.cons_append, skipBlanks_line, List.append_assoc, List.singleton_append,
      dropLine_line hs]
  | lastLine hs => rw [List.append_nil, skipBlanks_line, dropLine_lastLine hs]
  | block hs =>
    obtain ⟨t, rfl, ht⟩ := isBlockComment_iff.mp hs
    exact skipBlanks_block (dropComments_iff.mpr ⟨t, rfl, ht⟩)

theorem skipBlanks_gap {g rest : List Char} (h : Gap g rest) :
    skipBlanks (g ++ rest) = skipBlanks rest := by
  induction h with
  | nil => rfl
  | cons hs _ ih => rw [List.append_assoc, skipBlanks_filler hs, ih]

theorem scan_gap {g rest : List Char} (h : Gap g rest) : scan (g ++ rest) = scan rest := by
  rw [scan_eq, skipBlanks_gap h, ← scan_eq]

theorem stringContents_text {s t : List Char} (h : StringText s t) (before rest : List Char) :
    stringContents before (s ++ '"' :: rest) = .ok (before.reverse ++ t, rest) := by
  induction h generalizing before with
  | nil => simp [stringContents]
  | @plain c s t hquote hescape _ ih =>
    rw [List.cons_append, stringContents, ih]
    · simp
    · exact hquote
    all_goals simp [hescape]
  | @escape c d s t hc _ ih =>
    have hline : c ≠ '\n' := by
      rintro rfl
      cases hc
    rw [List.cons_append, List.cons_append, stringContents, hc]
    · dsimp only
      rw [ih]
      simp
    · exact hline
  | joinLines _ ih =>
    rw [List.cons_append, List.cons_append, stringContents, ih]

theorem scan_lexeme {l rest : List Char} {t : Token} (h : Lexeme l t rest) :
    scan (l ++ rest) = (t :: (scan rest).1, (scan rest).2) := by
  cases h with
  | opening b => exact scan_opening b rest
  | closing b => exact scan_closing b rest
  | quote => exact scan_quote rest
  | string h =>
    rw [List.cons_append, List.append_assoc]
    exact scan_quotation (stringContents_text h [] rest)
  | word hne hs ht hrest => exact scan_word hne hs ht hrest

/-- A text that is cut is scanned as the tokens of its lexemes and what the text left gives. -/
theorem scan_of_cuts {s rest : List Char} {ts : List Token} (h : Cuts s ts rest) :
    scan s = (ts ++ (scan rest).1, (scan rest).2) := by
  induction h with
  | gap hg => exact scan_gap hg
  | token hg hl _ ih => rw [scan_gap hg, scan_lexeme hl, ih, List.cons_append]

/-! ### Cutting what is scanned -/

theorem dropLine_split (s : List Char) :
    (∃ l, '\n' ∉ l ∧ s = l ++ '\n' :: dropLine s) ∨ '\n' ∉ s ∧ dropLine s = [] := by
  induction s with
  | nil => exact .inr ⟨by simp, rfl⟩
  | cons c s ih =>
    rw [dropLine]
    split
    · next hc => exact .inl ⟨[], by simp, by rw [hc]; rfl⟩
    · next hc =>
      rcases ih with ⟨l, hl, heq⟩ | ⟨hs, hend⟩
      · refine .inl ⟨c :: l, by simp [hl, Ne.symm hc], ?_⟩
        rw [List.cons_append, ← heq]
      · exact .inr ⟨by simp [hs, Ne.symm hc], hend⟩

theorem gap_line {s g rest : List Char} (hs : dropLine s = g ++ rest) (hg : Gap g rest) :
    ∃ g', ';' :: s = g' ++ rest ∧ Gap g' rest := by
  rcases dropLine_split s with ⟨l, hl, heq⟩ | ⟨hnoline, hend⟩
  · refine ⟨';' :: (l ++ ['\n']) ++ g, ?_, .cons (.line hl _) hg⟩
    rw [heq, hs]
    simp
  · rw [hend] at hs
    obtain ⟨rfl, rfl⟩ := List.append_eq_nil_iff.mp hs.symm
    exact ⟨';' :: s ++ [], by simp, .cons (.lastLine hnoline) hg⟩

theorem gap_block {s s' g rest : List Char} (hs : dropComments 1 s = some s')
    (hs' : s' = g ++ rest) (hg : Gap g rest) : ∃ g', '#' :: '|' :: s = g' ++ rest ∧ Gap g' rest := by
  obtain ⟨t, heq, ht⟩ := dropComments_block_iff.mp hs
  refine ⟨t ++ g, ?_, .cons (.block ht _) hg⟩
  rw [heq, hs', List.append_assoc]

/-- The scanner skips a gap. It stops in front of a comment that does not end, or in front of what
is no blank. -/
theorem skipBlanks_cuts (s : List Char) :
    ∃ g rest, s = g ++ rest ∧ Gap g rest ∧
      (skipBlanks s = .ok rest ∨
        skipBlanks s = .error .unclosedComment ∧
          ∃ rest', rest = '#' :: '|' :: rest' ∧ dropComments 1 rest' = none) := by
  fun_induction skipBlanks s with
  | case1 => exact ⟨[], [], rfl, .nil _, .inl rfl⟩
  | case2 s ih =>
    obtain ⟨g, rest, heq, hg, hskip⟩ := ih
    obtain ⟨g', heq', hg'⟩ := gap_line heq hg
    exact ⟨g', rest, heq', hg', hskip⟩
  | case3 s s' hs ih =>
    obtain ⟨g, rest, heq, hg, hskip⟩ := ih
    obtain ⟨g', heq', hg'⟩ := gap_block hs heq hg
    exact ⟨g', rest, heq', hg', hskip⟩
  | case4 s hs => exact ⟨[], _, rfl, .nil _, .inr ⟨rfl, s, rfl, hs⟩⟩
  | case5 c s hline hblock hc ih =>
    obtain ⟨g, rest, rfl, hg, hskip⟩ := ih
    exact ⟨[c] ++ g, rest, rfl, .cons (.blank hc _) hg, hskip⟩
  | case6 c s hline hblock hc => exact ⟨[], c :: s, rfl, .nil _, .inl rfl⟩

theorem stringText_of_contents {before s contents rest : List Char}
    (h : stringContents before s = .ok (contents, rest)) :
    ∃ u t, s = u ++ '"' :: rest ∧ StringText u t ∧ contents = before.reverse ++ t := by
  fun_induction stringContents before s with
  | case1 | case3 | case6 => simp at h
  | case2 before s =>
    cases h
    exact ⟨[], [], rfl, .nil, by simp⟩
  | case4 before s ih =>
    obtain ⟨u, t, rfl, hu, rfl⟩ := ih h
    exact ⟨'\\' :: '\n' :: u, t, rfl, .joinLines hu, rfl⟩
  | case5 before c s hc d hd ih =>
    obtain ⟨u, t, rfl, hu, rfl⟩ := ih h
    exact ⟨'\\' :: c :: u, d :: t, rfl, .escape hd hu, by simp⟩
  | case7 before c s hquote hend hline hescape ih =>
    have hc := ne_backslash hend hescape
    obtain ⟨u, t, rfl, hu, rfl⟩ := ih h
    exact ⟨c :: u, c :: t, rfl, .plain hquote hc hu, by simp⟩

theorem endsWord_dropWhile (s : List Char) : EndsWord (s.dropWhile (!isDelimiter ·)) := by
  intro c hc
  have hne : s.dropWhile (!isDelimiter ·) ≠ [] := by
    intro hnil
    simp [hnil] at hc
  have hhead := List.head_dropWhile_not (!isDelimiter ·) hne
  rw [List.head?_eq_some_head hne] at hc
  cases hc
  simpa using hhead

theorem lexeme_of_next {c : Char} {rest rest' : List Char} {t : Token}
    (hblank : Text.isBlank c = false) (hline : c ≠ ';') (h : next c rest = .ok (t, rest')) :
    ∃ l, c :: rest = l ++ rest' ∧ Lexeme l t rest' := by
  unfold next at h
  split at h
  · next b hopen =>
    cases h
    exact ⟨[c], rfl, b.eq_opening hopen ▸ .opening b rest⟩
  · next b hclose _ =>
    cases h
    exact ⟨[c], rfl, b.eq_closing hclose ▸ .closing b rest⟩
  · next hopen hclose =>
    split at h
    · next hquote =>
      cases h
      exact ⟨[c], rfl, hquote ▸ .quote rest⟩
    next hquote =>
    split at h
    · next hstring =>
      obtain ⟨⟨contents, rest''⟩, hcontents, h⟩ := bind_ok.mp h
      cases h
      obtain ⟨u, t, rfl, hu, rfl⟩ := stringText_of_contents hcontents
      exact ⟨'"' :: (u ++ ['"']), by simp [hstring], .string hu rest'⟩
    next hstring =>
    split at h
    · cases h
    next hbad =>
    obtain ⟨t', ht', h⟩ := bind_ok.mp h
    cases h
    have hc : isDelimiter c = false := by
      simp only [not_or] at hbad
      refine isDelimiter_eq_false_iff.mpr ⟨hblank, hopen, hclose, ?_⟩
      simp [hquote, hstring, hline, hbad.1, hbad.2]
    -- The word reaches to the next delimiter, so what follows ends it.
    refine ⟨c :: rest.takeWhile (!isDelimiter ·), ?_, .word (by simp) ?_ ht' ?_⟩
    · rw [List.cons_append, List.takeWhile_append_dropWhile]
    · exact List.forall_mem_cons.mpr ⟨hc, undelimited_takeWhile rest⟩
    · exact endsWord_dropWhile rest

/-! ### Where scanning stops -/

theorem stringContents_ne_unclosedComment (before s : List Char) :
    stringContents before s ≠ .error .unclosedComment := by
  fun_induction stringContents before s with
  | case1 | case2 | case3 | case6 => simp
  | case4 _ _ ih | case5 _ _ _ _ _ _ ih | case7 _ _ _ _ _ _ _ ih => exact ih

theorem ofWord_ne_unclosedComment (word : List Char) : ofWord word ≠ .error .unclosedComment := by
  unfold ofWord
  dsimp only
  repeat' split
  all_goals simp

theorem next_ne_unclosedComment (c : Char) (rest : List Char) :
    next c rest ≠ .error .unclosedComment := by
  unfold next
  split
  · simp
  · simp
  · split
    · simp
    split
    · intro h
      rcases bind_error.mp h with h | ⟨_, -, h⟩
      · exact stringContents_ne_unclosedComment _ _ h
      · cases h
    split
    · simp
    intro h
    rcases bind_error.mp h with h | ⟨_, -, h⟩
    · exact ofWord_ne_unclosedComment _ h
    · cases h

/-- Where scanning stops, and with which error: at the end of the text, at a comment that does not
end, or at what begins no token. -/
inductive Stops : List Char → Option ScanError → Prop
  | atEnd : Stops [] none
  | atComment {s : List Char} (h : dropComments 1 s = none) :
    Stops ('#' :: '|' :: s) (some .unclosedComment)
  | atLexeme {c : Char} {s : List Char} {e : ScanError} (h : next c s = .error e) :
    Stops (c :: s) (some e)

/-- A text is cut into the lexemes of its tokens up to where scanning stops. -/
theorem cuts_of_scan (s : List Char) : ∃ rest, Cuts s (scan s).1 rest ∧ Stops rest (scan s).2 := by
  fun_induction scan s with
  | case1 s e hs =>
    obtain ⟨g, rest, rfl, hg, hskip | ⟨hskip, rest', rfl, hend⟩⟩ := skipBlanks_cuts s
    · cases hskip.symm.trans hs
    · cases hskip.symm.trans hs
      exact ⟨_, .gap hg, .atComment hend⟩
  | case2 s hs =>
    obtain ⟨g, rest, rfl, hg, hskip | ⟨hskip, -⟩⟩ := skipBlanks_cuts s
    · cases hskip.symm.trans hs
      exact ⟨[], .gap hg, .atEnd⟩
    · cases hskip.symm.trans hs
  | case3 s c rest hs e he =>
    obtain ⟨g, rest, rfl, hg, hskip | ⟨hskip, -⟩⟩ := skipBlanks_cuts s
    · cases hskip.symm.trans hs
      exact ⟨_, .gap hg, .atLexeme he⟩
    · cases hskip.symm.trans hs
  | case4 s c rest hs t rest' ht us e? hus ih =>
    obtain ⟨hblank, hline, -⟩ := skipBlanks_cons hs
    obtain ⟨g, rest, rfl, hg, hskip | ⟨hskip, -⟩⟩ := skipBlanks_cuts s
    · cases hskip.symm.trans hs
      obtain ⟨l, heq, hl⟩ := lexeme_of_next hblank hline ht
      rw [hus] at ih
      obtain ⟨left, hcuts, hstops⟩ := ih
      rw [heq] at hg ⊢
      exact ⟨left, .token hg hl hcuts, hstops⟩
    · cases hskip.symm.trans hs

theorem Cuts.length_le {s rest : List Char} {ts : List Token} (h : Cuts s ts rest) :
    ts.length ≤ s.length := by
  induction h with
  | gap => exact Nat.zero_le _
  | token _ hl _ ih =>
    have hpos := List.length_pos_iff.mpr hl.ne_nil
    simp only [List.length_cons, List.length_append]
    omega

theorem scan_length_le (s : List Char) : (scan s).1.length ≤ s.length := by
  obtain ⟨rest, hcuts, -⟩ := cuts_of_scan s
  exact hcuts.length_le

theorem ofSource_of_scan {source : String} {ts : List Token}
    (h : scan source.toList = (ts, none)) : ofSource source = .ok ts := by rw [ofSource, h]

theorem ofSource_error {source : String} {e : ScanError} :
    ofSource source = .error e ↔ (scan source.toList).2 = some e := by
  unfold ofSource
  split
  · next h => simp [h]
  · next h => simp [h]

theorem ofSource_ok_iff {source : String} {ts : List Token} :
    ofSource source = .ok ts ↔ Cuts source.toList ts [] := by
  constructor
  · intro h
    obtain ⟨rest, hcuts, hstops⟩ := cuts_of_scan source.toList
    rw [ofSource_ok h] at hcuts hstops
    cases hstops
    exact hcuts
  · intro h
    have hscan := scan_of_cuts h
    rw [scan_nil, List.append_nil] at hscan
    exact ofSource_of_scan hscan

theorem ofSource_unclosedComment_iff {source : String} :
    ofSource source = .error .unclosedComment ↔ ∃ ts rest,
      Cuts source.toList ts ('#' :: '|' :: rest) ∧ dropComments 1 rest = none := by
  rw [ofSource_error]
  constructor
  · intro h
    obtain ⟨rest, hcuts, hstops⟩ := cuts_of_scan source.toList
    rw [h] at hstops
    cases hstops with
    | atComment hend => exact ⟨_, _, hcuts, hend⟩
    | atLexeme he => exact absurd he (next_ne_unclosedComment _ _)
  · rintro ⟨ts, rest, hcuts, hend⟩
    rw [scan_of_cuts hcuts, scan_eq, skipBlanks_unclosed hend]

/-- A text gives at most as many tokens as it has characters. It is scanned as the tokens `ts` if and
only if it can be cut into their lexemes and gaps, and scanning ends in an unclosed comment if and
only if the text can be cut up to a `#|` that begins no block comment. -/
theorem scanning_keeps_text (source : String) :
    (scan source.toList).1.length ≤ source.length ∧
    (∀ ts, ofSource source = .ok ts ↔ Cuts source.toList ts []) ∧
    (ofSource source = .error .unclosedComment ↔ ∃ ts rest,
      Cuts source.toList ts ('#' :: '|' :: rest) ∧
        ¬ ∃ s, s <+: '#' :: '|' :: rest ∧ IsBlockComment s) ∧
    ScanError.unclosedComment.detail = "end of file in `#|` comment" := by
  refine ⟨?_, fun ts => ofSource_ok_iff, ?_, rfl⟩
  · rw [← String.length_toList]
    exact scan_length_le source.toList
  · simp only [ofSource_unclosedComment_iff, dropComments_eq_none_iff]

end Token
end BeginningStudent
