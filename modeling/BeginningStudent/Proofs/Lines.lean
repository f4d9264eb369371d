import BeginningStudent.Proofs.Yields
import BeginningStudent.Session

/-!
# Texts one below the other

No token, comment or string goes on beyond the end of a text that can be read on its own, so a line
break behind it separates it from any other text: the tokens and the forms of both are those of the
first and then those of the second (`readSource_lines`).
-/

namespace BeginningStudent

namespace Token

/-! ### Comments and blanks -/

theorem isDelimiter_newline : isDelimiter '\n' = true := by decide

theorem dropComments_append {depth : Nat} {s rest : List Char}
    (h : dropComments depth s = some rest) (x : List Char) :
    dropComments depth (s ++ x) = some (rest ++ x) := by
  fun_induction dropComments depth s with
  | case1 s =>
    cases h
    rw [dropComments]
  | case2 depth s ih =>
    rw [List.cons_append, List.cons_append, dropComments]
    exact ih h
  | case3 depth s ih =>
    rw [List.cons_append, List.cons_append, dropComments]
    exact ih h
  | case4 depth c s hclose hopen ih =>
    cases s with
    | nil => simp [dropComments] at h
    | cons c' s =>
      rw [List.cons_append, List.cons_append, dropComments]
      · exact ih h
      · simpa using hclose
      · simpa using hopen
  | case5 => simp at h

theorem dropLine_append (s x : List Char) :
    dropLine (s ++ '\n' :: x) = dropLine s ++ '\n' :: x ∨
      dropLine s = [] ∧ dropLine (s ++ '\n' :: x) = x := by
  induction s with
  | nil => exact .inr ⟨rfl, rfl⟩
  | cons c s ih =>
    rw [List.cons_append, dropLine, dropLine]
    split
    · exact .inl rfl
    · exact ih

theorem skipBlanks_newline (x : List Char) : skipBlanks ('\n' :: x) = skipBlanks x := by
  rw [skipBlanks, if_pos (by decide)]
  all_goals simp

theorem no_comment_append {c : Char} {s : List Char}
    (h : ∀ rest, c = '#' → s = '|' :: rest → False) (x : List Char) :
    ∀ rest, c = '#' → s ++ '\n' :: x = '|' :: rest → False := by
  intro rest hc hrest
  cases s with
  | nil => cases hrest
  | cons c' s =>
    cases hrest
    exact h s hc rfl

/-- The text behind the blanks of a text and of the line `x` below it, given the text behind the
blanks of the first. -/
def skipInto (x : List Char) : List Char → Except ScanError (List Char)
  | [] => skipBlanks x
  | c :: rest => .ok (c :: rest ++ '\n' :: x)

theorem skipBlanks_append {s r : List Char} (h : skipBlanks s = .ok r) (x : List Char) :
    skipBlanks (s ++ '\n' :: x) = skipInto x r := by
  fun_induction skipBlanks s with
  | case1 =>
    cases h
    exact skipBlanks_newline x
  | case2 s ih =>
    rw [List.cons_append, skipBlanks]
    rcases dropLine_append s x with hline | ⟨hend, hline⟩
    · rw [hline]
      exact ih h
    · rw [hend, skipBlanks] at h
      cases h
      rw [hline, skipInto]
  | case3 s s' hs ih =>
    have hblock := dropComments_append hs ('\n' :: x)
    rw [List.cons_append, List.cons_append, skipBlanks]
    split
    · next s'' hs'' =>
      cases hblock.symm.trans hs''
      exact ih h
    · next hnone =>
      cases hblock.symm.trans hnone
  | case4 => simp at h
  | case5 c s hline hblock hc ih =>
    -- The line break cannot complete the mark that begins a block comment.
    rw [List.cons_append, skipBlanks, if_pos hc]
    · exact ih h
    · exact hline
    · exact no_comment_append hblock x
  | case6 c s hline hblock hc =>
    cases h
    rw [List.cons_append, skipBlanks, if_neg hc]
    · rfl
    · exact hline
    · exact no_comment_append hblock x

/-! ### Tokens -/

theorem ne_backslash {c : Char} {s : List Char} (hend : c = '\\' → s = [] → False)
    (hescape : ∀ c' rest, c = '\\' → s = c' :: rest → False) : c ≠ '\\' := by
  intro hc
  cases s with
  | nil => exact hend hc rfl
  | cons c' s => exact hescape c' s hc rfl

theorem stringContents_append {before s contents rest : List Char}
    (h : stringContents before s = .ok (contents, rest)) (x : List Char) :
    stringContents before (s ++ x) = .ok (contents, rest ++ x) := by
  fun_induction stringContents before s with
  | case1 | case3 | case6 => simp at h
  | case2 before s =>
    cases h
    rw [List.cons_append, stringContents]
  | case4 before s ih =>
    rw [List.cons_append, List.cons_append, stringContents]
    exact ih h
  | case5 before c s hc d hd ih =>
    rw [List.cons_append, List.cons_append, stringContents, hd]
    · exact ih h
    · exact hc
  | case7 before c s hquote hend hline hescape ih =>
    have hc := ne_backslash hend hescape
    rw [List.cons_append, stringContents]
    · exact ih h
    · exact hquote
    all_goals simp [hc]

theorem takeWhile_word (s x : List Char) :
    (s ++ '\n' :: x).takeWhile (!isDelimiter ·) = s.takeWhile (!isDelimiter ·) ∧
      (s ++ '\n' :: x).dropWhile (!isDelimiter ·) = s.dropWhile (!isDelimiter ·) ++ '\n' :: x := by
  induction s with
  | nil => simp [isDelimiter_newline]
  | cons c s ih =>
    obtain ⟨htake, hdrop⟩ := ih
    cases hc : isDelimiter c <;> simp [hc, htake, hdrop]

theorem next_append {c : Char} {s rest : List Char} {t : Token} (h : next c s = .ok (t, rest))
    (x : List Char) : next c (s ++ '\n' :: x) = .ok (t, rest ++ '\n' :: x) := by
  cases ho : Bracket.ofOpening? c with
  | some b =>
    simp only [next, ho] at h ⊢
    cases h
    rfl
  | none =>
  cases hc : Bracket.ofClosing? c with
  | some b =>
    simp only [next, ho, hc] at h ⊢
    cases h
    rfl
  | none =>
  simp only [next, ho, hc] at h ⊢
  by_cases hquote : c = '\''
  · rw [if_pos hquote] at h ⊢
    cases h
    rfl
  rw [if_neg hquote] at h ⊢
  by_cases hstring : c = '"'
  · rw [if_pos hstring] at h ⊢
    obtain ⟨⟨contents, rest'⟩, hcontents, h⟩ := bind_ok.mp h
    cases h
    rw [stringContents_append hcontents]
    rfl
  rw [if_neg hstring] at h ⊢
  by_cases hbad : c = '`' ∨ c = ','
  · rw [if_pos hbad] at h
    cases h
  rw [if_neg hbad] at h ⊢
  obtain ⟨t', ht', h⟩ := bind_ok.mp h
  cases h
  obtain ⟨htake, hdrop⟩ := takeWhile_word s x
  rw [htake, hdrop, ht']
  rfl

/-! ### Scanning -/

theorem scan_eq (s : List Char) :
    scan s =
      match skipBlanks s with
      | .error e => ([], some e)
      | .ok [] => ([], none)
      | .ok (c :: rest) =>
        match next c rest with
        | .error e => ([], some e)
        | .ok (t, rest') => (t :: (scan rest').1, (scan rest').2) := by
  rw [scan]
  split
  · next h => rw [h]
  · next h => rw [h]
  · next h =>
    rw [h]
    dsimp only
    split
    · next ht => rw [ht]
    · next ht => rw [ht]

theorem scan_append {s : List Char} {ts : List Token} (h : scan s = (ts, none)) (x : List Char) :
    scan (s ++ '\n' :: x) = (ts ++ (scan x).1, (scan x).2) := by
  fun_induction scan s generalizing ts with
  | case1 | case3 => simp at h
  | case2 s hs =>
    cases h
    rw [scan_eq, skipBlanks_append hs x, scan_eq x]
    rfl
  | case4 s c rest hs t rest' ht us e? hus ih =>
    cases h
    rw [scan_eq, skipBlanks_append hs x]
    simp only [skipInto, List.cons_append, next_append ht x, ih hus]

theorem ofSource_ok {source : String} {ts : List Token} (h : ofSource source = .ok ts) :
    scan source.toList = (ts, none) := by
  unfold ofSource at h
  split at h
  · next hs =>
    cases h
    exact hs
  · cases h

theorem ofSource_lines {a b : String} {ts us : List Token} (ha : ofSource a = .ok ts)
    (hb : ofSource b = .ok us) : ofSource (a ++ "\n" ++ b) = .ok (ts ++ us) := by
  have hlines : (a ++ "\n" ++ b).toList = a.toList ++ '\n' :: b.toList := by
    simp [String.toList_append]
  rw [ofSource, hlines, scan_append (ofSource_ok ha), ofSource_ok hb]

end Token

/-! ### Reading -/

namespace Form

namespace ReadState

/-- The state in which the given forms, from the end, have been read before. -/
def onto (s : ReadState) (fs : List Form) : ReadState := ⟨s.done ++ fs, s.pending⟩

theorem push_onto (done fs : List Form) (f : Form) (pending : List Pending) :
    push (done ++ fs) f pending = (push done f pending).onto fs := by
  induction pending generalizing f with
  | nil => rfl
  | cons p outer ih =>
    cases p with
    | quote => exact ih f.quoted
    | group b items => rfl

theorem close_onto (s : ReadState) (fs : List Form) (b : Bracket) :
    (s.onto fs).close b = (·.onto fs) <$> s.close b := by
  obtain ⟨done, pending⟩ := s
  cases pending with
  | nil => rfl
  | cons p outer =>
    cases p with
    | quote => rfl
    | group opened items =>
      simp only [close, onto]
      split
      · rw [push_onto]
        rfl
      · rfl

theorem step_onto (s : ReadState) (fs : List Form) (t : Token) :
    (s.onto fs).step t = (·.onto fs) <$> s.step t := by
  cases t with
  | opening b | quote => rfl
  | closing b => exact s.close_onto fs b
  | name | number | string | boolean =>
    rw [step, onto, push_onto]
    rfl
  | keyword k =>
    simp only [step, onto]
    split
    · rw [push_onto]
      rfl
    · rfl

end ReadState

theorem readOnto_onto (s : ReadState) (fs : List Form) (ts : List Token) :
    readOnto (s.onto fs) ts = (·.onto fs) <$> readOnto s ts := by
  induction ts generalizing s with
  | nil => rfl
  | cons t ts ih =>
    rw [readOnto, readOnto, List.foldlM_cons, List.foldlM_cons, ReadState.step_onto]
    cases s.step t with
    | error e => rfl
    | ok s' => exact ih s'

theorem finish_ok {s : ReadState} {fs : List Form} (h : s.finish = .ok fs) :
    s = ReadState.start.onto fs.reverse := by
  obtain ⟨done, pending⟩ := s
  unfold ReadState.finish at h
  split at h
  · next hp =>
    cases h
    dsimp only at hp
    rw [hp]
    simp [ReadState.onto, ReadState.start]
  · cases h
  · cases h

theorem read_append {ts us : List Token} {fs gs : List Form} (hts : read ts = .ok fs)
    (hus : read us = .ok gs) : read (ts ++ us) = .ok (fs ++ gs) := by
  obtain ⟨s, hs, hfs⟩ := bind_ok.mp hts
  obtain ⟨s', hs', hgs⟩ := bind_ok.mp hus
  rw [read, readOnto_append, hs, finish_ok hfs]
  refine bind_ok.mpr ⟨s'.onto fs.reverse, ?_, ?_⟩
  · refine (readOnto_onto .start fs.reverse us).trans ?_
    rw [hs']
    rfl
  · rw [finish_ok hgs]
    simp [ReadState.finish, ReadState.onto, ReadState.start]

end Form

/-! ### Sources -/

theorem readSource_ok {source : String} {fs : List Form} :
    readSource source = .ok fs ↔ ∃ ts, Token.ofSource source = .ok ts ∧ Form.read ts = .ok fs := by
  simp only [readSource, bind_ok, mapError_ok]

theorem readSource_error {source : String} {e : Error} (h : readSource source = .error e) :
    (∃ e', e = .scan e') ∨ ∃ e', e = .read e' := by
  rcases bind_error.mp h with hs | ⟨tokens, -, hr⟩
  · obtain ⟨e', -, rfl⟩ := mapError_error.mp hs
    exact .inl ⟨e', rfl⟩
  · obtain ⟨e', -, rfl⟩ := mapError_error.mp hr
    exact .inr ⟨e', rfl⟩

/-- The forms of two texts, one below the other. -/
theorem readSource_lines {a b : String} {fs gs : List Form} (ha : readSource a = .ok fs)
    (hb : readSource b = .ok gs) : readSource (a ++ "\n" ++ b) = .ok (fs ++ gs) := by
  obtain ⟨ts, hts, hfs⟩ := readSource_ok.mp ha
  obtain ⟨us, hus, hgs⟩ := readSource_ok.mp hb
  exact readSource_ok.mpr ⟨ts ++ us, Token.ofSource_lines hts hus, Form.read_append hfs hgs⟩

theorem readSource_intercalate {sources : List String} {parts : List (List Form)}
    (h : sources.mapM readSource = .ok parts) :
    readSource (String.intercalate "\n" sources) = .ok parts.flatten := by
  induction sources generalizing parts with
  | nil =>
    cases h
    have hempty : Token.ofSource "" = .ok [] := by
      simp [Token.ofSource, Token.scan_eq, Token.skipBlanks]
    exact readSource_ok.mpr ⟨[], hempty, rfl⟩
  | cons source sources ih =>
    rw [List.mapM_cons] at h
    obtain ⟨fs, hfs, h⟩ := bind_ok.mp h
    obtain ⟨rest, hrest, h⟩ := bind_ok.mp h
    cases h
    cases sources with
    | nil =>
      cases hrest
      simpa using hfs
    | cons next sources =>
      rw [String.intercalate_cons_of_ne_nil (by simp)]
      exact readSource_lines hfs (ih hrest)

end BeginningStudent
