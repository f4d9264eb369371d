import BeginningStudent.Proofs.Lexemes

/-!
# Lines that cannot be scanned

An error that is not about the end of the text is found before the end, so it stays when a line is
added below the text: `scan_append_error`, beside `scan_append` for a text without errors.
-/

namespace BeginningStudent.Token

theorem skipBlanks_error {s : List Char} {e : ScanError} (h : skipBlanks s = .error e) :
    e = .unclosedComment := by
  obtain ⟨g, rest, rfl, -, hskip | ⟨hskip, -⟩⟩ := skipBlanks_cuts s
  · cases hskip.symm.trans h
  · cases hskip.symm.trans h
    rfl

theorem stringContents_append_error {before s : List Char} {e : ScanError}
    (h : stringContents before s = .error e) (he : e ≠ .unclosedString) (x : List Char) :
    stringContents before (s ++ x) = .error e := by
  fun_induction stringContents before s with
  | case1 | case3 =>
    cases h
    exact absurd rfl he
  | case2 => cases h
  | case4 before s ih =>
    rw [List.cons_append, List.cons_append, stringContents]
    exact ih h
  | case5 before c s hc d hd ih =>
    rw [List.cons_append, List.cons_append, stringContents, hd]
    · exact ih h
    · exact hc
  | case6 before c s hc hd =>
    rw [List.cons_append, List.cons_append, stringContents, hd]
    · exact h
    · exact hc
  | case7 before c s hquote hend hline hescape ih =>
    have hc := ne_backslash hend hescape
    rw [List.cons_append, stringContents]
    · exact ih h
    · exact hquote
    all_goals simp [hc]

/-- A word ends with its line, so it is the same word when another line follows. -/
theorem next_append_error {c : Char} {s : List Char} {e : ScanError} (h : next c s = .error e)
    (he : e ≠ .unclosedString) (x : List Char) : next c (s ++ '\n' :: x) = .error e := by
  cases ho : Bracket.ofOpening? c with
  | some b =>
    simp only [next, ho] at h
    cases h
  | none =>
  cases hc : Bracket.ofClosing? c with
  | some b =>
    simp only [next, ho, hc] at h
    cases h
  | none =>
  simp only [next, ho, hc] at h ⊢
  by_cases hquote : c = '\''
  · rw [if_pos hquote] at h
    cases h
  rw [if_neg hquote] at h ⊢
  by_cases hstring : c = '"'
  · rw [if_pos hstring] at h ⊢
    rcases bind_error.mp h with h | ⟨_, -, h⟩
    · exact bind_error.mpr (.inl (stringContents_append_error h he _))
    · cases h
  rw [if_neg hstring] at h ⊢
  by_cases hbad : c = '`' ∨ c = ','
  · rw [if_pos hbad] at h ⊢
    exact h
  rw [if_neg hbad] at h ⊢
  obtain ⟨htake, -⟩ := takeWhile_word s x
  rw [htake]
  rcases bind_error.mp h with h | ⟨_, -, h⟩
  · exact bind_error.mpr (.inl h)
  · cases h

theorem scan_append_error {s : List Char} {ts : List Token} {e : ScanError}
    (h : scan s = (ts, some e)) (hstring : e ≠ .unclosedString) (hcomment : e ≠ .unclosedComment)
    (x : List Char) : scan (s ++ '\n' :: x) = (ts, some e) := by
  fun_induction scan s generalizing ts with
  | case1 s e' hs =>
    cases h
    exact absurd (skipBlanks_error hs) hcomment
  | case2 => cases h
  | case3 s c rest hs e' he' =>
    cases h
    rw [scan_eq, skipBlanks_append hs x]
    simp only [skipInto, List.cons_append, next_append_error he' hstring x]
  | case4 s c rest hs t rest' ht us e? hus ih =>
    cases h
    rw [scan_eq, skipBlanks_append hs x]
    simp only [skipInto, List.cons_append, next_append ht x, ih hus]

/-- The tokens of two texts one below the other are those of the first and then those of the second.
An error of the first text that is not about its end is the error of both. -/
theorem scanning_by_lines (a b : String) :
    (∀ ts us, ofSource a = .ok ts → ofSource b = .ok us →
      ofSource (a ++ "\n" ++ b) = .ok (ts ++ us)) ∧
    (∀ e, ofSource a = .error e → e ≠ .unclosedString → e ≠ .unclosedComment →
      ofSource (a ++ "\n" ++ b) = .error e) := by
  refine ⟨fun ts us hts hus => ofSource_lines hts hus, fun e h hstring hcomment => ?_⟩
  have hscan : scan a.toList = ((scan a.toList).1, some e) := by rw [← ofSource_error.mp h]
  have hlines : (a ++ "\n" ++ b).toList = a.toList ++ '\n' :: b.toList := by
    simp [String.toList_append]
  rw [ofSource_error, hlines, scan_append_error hscan hstring hcomment]

/-- A `#|` in a line comment does not reach the next line, and a string that fails at an escape fails
there when the next line would close it. -/
theorem scanning_by_lines_marks :
    ofSource "(f ; #|" = .ok [.opening .round, .name "f"] ∧
    ofSource "|# 'x" = .ok [.name "|#", .quote, .name "x"] ∧
    ofSource ("(f ; #|" ++ "\n" ++ "|# 'x") =
      .ok [.opening .round, .name "f", .name "|#", .quote, .name "x"] ∧
    ofSource "\"a\\q" = .error (.unknownEscape 'q') ∧
    ofSource ("\"a\\q" ++ "\n" ++ "b\"") = .error (.unknownEscape 'q') := by
  have hfirst : ofSource "(f ; #|" = .ok [.opening .round, .name "f"] :=
    ofSource_of_scan (by decide +kernel)
  have hsecond : ofSource "|# 'x" = .ok [.name "|#", .quote, .name "x"] :=
    ofSource_of_scan (by decide +kernel)
  have herror : ofSource "\"a\\q" = .error (.unknownEscape 'q') :=
    ofSource_error.mpr (by decide +kernel)
  obtain ⟨hlines, -⟩ := scanning_by_lines "(f ; #|" "|# 'x"
  obtain ⟨-, hbroken⟩ := scanning_by_lines "\"a\\q" "b\""
  exact ⟨hfirst, hsecond, hlines _ _ hfirst hsecond, herror,
    hbroken _ herror (by decide) (by decide)⟩

end BeginningStudent.Token
