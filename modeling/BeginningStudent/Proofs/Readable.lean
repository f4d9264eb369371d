import BeginningStudent.Proofs.Grammar

/-!
# Lists of tokens that can be read

Whether a list of tokens can be read shows without reading it: its brackets match, and each of its
quote marks and keywords is in its place among its neighbours (`Form.read_inverts_flattening`, with
what is read in the first two parts).
-/

namespace BeginningStudent

namespace Token

/-! ### Conditions on the tokens -/

/-- Inside groups of the families `outer`, from the innermost outward, every closing bracket is of
the family of the innermost open group, and no group stays open. -/
def BracketsMatch (outer : List Bracket) : List Token → Prop
  | [] => outer = []
  | .opening b :: ts => BracketsMatch (b :: outer) ts
  | .closing b :: ts => outer.head? = some b ∧ BracketsMatch outer.tail ts
  | _ :: ts => BracketsMatch outer ts

def Quotable (ts : List Token) : Prop := (∃ ps, Phrase ts ps) ∨ ∃ k, ts = [.keyword k]

/-- Between the tokens `before` and `after`, a quote mark is followed by what it quotes, and a
keyword heads a group or is quoted: by a quote mark, or by the keyword `quote` that heads a group. -/
def InPlace (before : List Token) : Token → List Token → Prop
  | .quote, after => ∃ ts rest, after = ts ++ rest ∧ Quotable ts
  | .keyword _, _ => (∃ b, [.opening b] <:+ before) ∨ [.quote] <:+ before ∨
      ∃ b, [.opening b, .keyword .quote] <:+ before
  | _, _ => True

def AllInPlace (ts : List Token) : Prop :=
  ∀ before t after, ts = before ++ t :: after → InPlace before t after

/-! ### The conditions hold of what the grammar derives -/

theorem bracketsMatch_atom {t : Token} (ht : t.isAtom = true) (outer : List Bracket)
    (ts : List Token) : BracketsMatch outer (t :: ts) ↔ BracketsMatch outer ts := by
  cases t <;> first | rfl | cases ht

theorem Head.bracketsMatch {hs ps : List Token} (h : Head hs ps) (outer : List Bracket)
    (ts : List Token) : BracketsMatch outer (hs ++ ts) ↔ BracketsMatch outer ts := by
  cases h <;> rfl

mutual

theorem Phrase.bracketsMatch : ∀ {ts ps : List Token}, Phrase ts ps → ∀ outer us,
    (BracketsMatch outer (ts ++ us) ↔ BracketsMatch outer us)
  | _, _, .atom ht, outer, us => bracketsMatch_atom ht outer us
  | _, _, .group b hhead hitems, outer, us => by
    rw [List.cons_append, BracketsMatch, List.append_assoc, List.append_assoc,
      hhead.bracketsMatch, hitems.bracketsMatch]
    simp [BracketsMatch]
  | _, _, .quote h, outer, us => by
    rw [List.cons_append, BracketsMatch, h.bracketsMatch]
    all_goals simp
  | _, _, .quotedKeyword k, outer, us => .rfl

theorem Phrases.bracketsMatch : ∀ {ts ps : List Token}, Phrases ts ps → ∀ outer us,
    (BracketsMatch outer (ts ++ us) ↔ BracketsMatch outer us)
  | _, _, .nil, _, _ => .rfl
  | _, _, .cons h hs, outer, us => by
    rw [List.append_assoc, h.bracketsMatch, hs.bracketsMatch]

end

theorem InPlace.extend {before after : List Token} {t : Token} (h : InPlace before t after)
    (us vs : List Token) : InPlace (us ++ before) t (after ++ vs) := by
  cases t with
  | quote =>
    obtain ⟨ts, rest, rfl, hts⟩ := h
    exact ⟨ts, rest ++ vs, List.append_assoc _ _ _, hts⟩
  | keyword k =>
    have hsuffix := List.suffix_append us before
    rcases h with ⟨b, h⟩ | h | ⟨b, h⟩
    · exact .inl ⟨b, h.trans hsuffix⟩
    · exact .inr (.inl (h.trans hsuffix))
    · exact .inr (.inr ⟨b, h.trans hsuffix⟩)
  | opening | closing | name | number | string | boolean => trivial

theorem allInPlace_nil : AllInPlace [] := by
  intro before t after h
  simp at h

theorem AllInPlace.cons {t : Token} {ts : List Token} (ht : InPlace [] t ts)
    (hts : AllInPlace ts) : AllInPlace (t :: ts) := by
  intro before t' after h
  cases before with
  | nil =>
    cases h
    exact ht
  | cons u before =>
    cases h
    simpa using (hts before t' after rfl).extend [t] []

theorem AllInPlace.append {ts us : List Token} (hts : AllInPlace ts) (hus : AllInPlace us) :
    AllInPlace (ts ++ us) := by
  intro before t after h
  rcases List.append_eq_append_iff.mp h with ⟨vs, hbefore, hvs⟩ | ⟨vs, hbefore, hvs⟩
  · subst hbefore
    simpa using (hus vs t after hvs).extend ts []
  · cases vs with
    | nil =>
      rw [List.append_nil] at hbefore
      subst hbefore
      simpa using (hus [] t after hvs.symm).extend ts []
    | cons v vs =>
      cases hvs
      simpa using (hts before t vs hbefore).extend [] us

theorem AllInPlace.concat {t : Token} {ts : List Token} (hts : AllInPlace ts)
    (ht : InPlace ts t []) : AllInPlace (ts ++ [t]) := by
  intro before t' after h
  rcases List.append_eq_append_iff.mp h with ⟨vs, hbefore, hvs⟩ | ⟨vs, hbefore, hvs⟩
  · cases vs with
    | nil =>
      cases hvs
      rw [hbefore, List.append_nil]
      exact ht
    | cons v vs => simp at hvs
  · cases vs with
    | nil =>
      cases hvs
      rw [List.append_nil] at hbefore
      exact hbefore ▸ ht
    | cons v vs =>
      cases hvs
      simpa using (hts before t' vs hbefore).extend [] [t]

theorem allInPlace_of_isAtom {t : Token} (ht : t.isAtom = true) : AllInPlace [t] := by
  refine .cons ?_ allInPlace_nil
  cases t with
  | quote | keyword => cases ht
  | _ => trivial

theorem Head.allInPlace {hs ps : List Token} (h : Head hs ps) (b : Bracket) :
    AllInPlace (.opening b :: hs) := by
  have hbare : AllInPlace [.opening b] := .cons trivial allInPlace_nil
  have hkeyword (k : Keyword) : AllInPlace [.opening b, .keyword k] :=
    hbare.concat (.inl ⟨b, List.suffix_refl _⟩)
  cases h with
  | bare => exact hbare
  | keyword k => exact hkeyword k
  | quoted k => exact (hkeyword .quote).concat (.inr (.inr ⟨b, List.suffix_refl _⟩))

theorem allInPlace_quotedKeyword (k : Keyword) : AllInPlace [.quote, .keyword k] := by
  intro before t after heq
  match before with
  | [] =>
    cases heq
    exact ⟨[.keyword k], [], rfl, .inr ⟨k, rfl⟩⟩
  | [_] =>
    cases heq
    exact .inr (.inl (List.suffix_refl _))
  | _ :: _ :: before => simp at heq

mutual

theorem Phrase.allInPlace : ∀ {ts ps : List Token}, Phrase ts ps → AllInPlace ts
  | _, _, .atom ht => allInPlace_of_isAtom ht
  | _, _, .group b hhead hitems => by
    have hclose : AllInPlace [.closing b] := .cons trivial allInPlace_nil
    exact ((hhead.allInPlace b).append hitems.allInPlace).append hclose
  | _, _, @Phrase.quote ts ps h =>
    .cons ⟨ts, [], (List.append_nil ts).symm, .inl ⟨ps, h⟩⟩ h.allInPlace
  | _, _, .quotedKeyword k => allInPlace_quotedKeyword k

theorem Phrases.allInPlace : ∀ {ts ps : List Token}, Phrases ts ps → AllInPlace ts
  | _, _, .nil => allInPlace_nil
  | _, _, .cons h hs => h.allInPlace.append hs.allInPlace

end

theorem Quotable.head {ts : List Token} (h : Quotable ts) :
    ∃ t rest, ts = t :: rest ∧ ∀ b, t ≠ .closing b := by
  rcases h with ⟨ps, h⟩ | ⟨k, rfl⟩
  · cases h with
    | atom ht =>
      refine ⟨_, _, rfl, ?_⟩
      rintro b rfl
      cases ht
    | group | quote | quotedKeyword => exact ⟨_, _, rfl, by simp⟩
  · exact ⟨_, _, rfl, by simp⟩

end Token

namespace Form

open Token

/-! ### The conditions suffice -/

namespace ReadState

/-- The families of the groups that are open, from the innermost outward. -/
def openGroups : List Pending → List Bracket
  | [] => []
  | .quote :: outer => openGroups outer
  | .group b _ :: outer => b :: openGroups outer

theorem push_openGroups (done : List Form) (f : Form) (pending : List Pending) :
    openGroups (push done f pending).pending = openGroups pending := by
  induction pending generalizing f with
  | nil => rfl
  | cons p outer ih =>
    cases p with
    | quote => exact ih f.quoted
    | group b items => rfl

theorem push_pending_ne_quote {done : List Form} {f : Form} {pending outer : List Pending} :
    (push done f pending).pending ≠ .quote :: outer := by
  induction pending generalizing f with
  | nil => simp [push]
  | cons p outer' ih =>
    cases p with
    | quote => exact ih
    | group b items => simp [push]

theorem eq_quote_of_step {s s' : ReadState} {t : Token} {outer : List Pending}
    (h : s.step t = .ok s') (hs' : s'.pending = .quote :: outer) : t = .quote := by
  cases t with
  | quote => rfl
  | opening b =>
    cases h
    cases hs'
  | closing b =>
    simp only [step, close] at h
    split at h
    · split at h
      · cases h
        exact absurd hs' push_pending_ne_quote
      · cases h
    · cases h
  | keyword k =>
    simp only [step] at h
    split at h
    · cases h
      exact absurd hs' push_pending_ne_quote
    · cases h
  | name | number | string | boolean =>
    cases h
    exact absurd hs' push_pending_ne_quote

end ReadState

open ReadState

theorem readOnto_concat {s s' : ReadState} {ts : List Token} {t : Token} :
    readOnto s (ts ++ [t]) = .ok s' ↔ ∃ s'', readOnto s ts = .ok s'' ∧ s''.step t = .ok s' := by
  rw [readOnto_append, bind_ok]
  have hone : ∀ s'', readOnto s'' [t] = s''.step t := by
    intro s''
    rw [readOnto_cons]
    cases s''.step t <;> rfl
  simp only [hone]

theorem keywordForm?_of_inPlace {before after : List Token} {k : Keyword} {s : ReadState}
    (hs : readOnto .start before = .ok s) (h : InPlace before (.keyword k) after) :
    ∃ f, keywordForm? k s.pending = some f := by
  rcases h with ⟨b, us, rfl⟩ | ⟨us, rfl⟩ | ⟨b, us, rfl⟩
  · obtain ⟨s', -, hstep⟩ := readOnto_concat.mp hs
    cases hstep
    exact ⟨_, rfl⟩
  · obtain ⟨s', -, hstep⟩ := readOnto_concat.mp hs
    cases hstep
    exact ⟨_, rfl⟩
  · rw [List.append_cons] at hs
    obtain ⟨s', hs', hstep⟩ := readOnto_concat.mp hs
    obtain ⟨s'', -, hstep'⟩ := readOnto_concat.mp hs'
    cases hstep'
    cases hstep
    exact ⟨_, rfl⟩

theorem quotable_of_pending {before after : List Token} {s : ReadState} {outer : List Pending}
    (hs : readOnto .start before = .ok s) (hquote : s.pending = .quote :: outer)
    (h : AllInPlace (before ++ after)) : ∃ ts rest, after = ts ++ rest ∧ Quotable ts := by
  rcases List.eq_nil_or_concat before with rfl | ⟨us, t, rfl⟩
  · cases hs
    cases hquote
  · rw [List.concat_eq_append] at hs h
    obtain ⟨s', -, hstep⟩ := readOnto_concat.mp hs
    cases eq_quote_of_step hstep hquote
    exact h us .quote after (by simp)

theorem step_closing {s : ReadState} {before after : List Token} {b : Bracket}
    (hs : readOnto .start before = .ok s) (hb : (openGroups s.pending).head? = some b)
    (h : AllInPlace (before ++ .closing b :: after)) :
    ∃ items outer, s.pending = .group b items :: outer := by
  obtain ⟨done, pending⟩ := s
  match pending with
  | [] => cases hb
  | .quote :: outer =>
    -- The quote mark would have to quote the closing bracket.
    obtain ⟨ts, rest, heq, hts⟩ := quotable_of_pending hs rfl h
    obtain ⟨t, rest', rfl, ht⟩ := hts.head
    cases heq
    exact absurd rfl (ht b)
  | .group b' items :: outer =>
    cases hb
    exact ⟨items, outer, rfl⟩

/-- One more token is read where the conditions hold of it and what follows, and they go on to
hold. -/
theorem step_of_conditions {before after : List Token} {t : Token} {s : ReadState}
    (hs : readOnto .start before = .ok s)
    (hmatch : BracketsMatch (openGroups s.pending) (t :: after))
    (h : AllInPlace (before ++ t :: after)) :
    ∃ s', s.step t = .ok s' ∧ BracketsMatch (openGroups s'.pending) after := by
  cases t with
  | opening b => exact ⟨_, rfl, hmatch⟩
  | quote => exact ⟨_, rfl, hmatch⟩
  | closing b =>
    obtain ⟨hb, hmatch⟩ := hmatch
    obtain ⟨items, outer, hpending⟩ := step_closing hs hb h
    refine ⟨push s.done (.group items.reverse) outer, ?_, ?_⟩
    · simp [step, close, hpending]
    · rw [push_openGroups]
      rwa [hpending] at hmatch
  | keyword k =>
    obtain ⟨f, hf⟩ := keywordForm?_of_inPlace hs (h before (.keyword k) after rfl)
    refine ⟨push s.done f s.pending, ?_, ?_⟩
    · simp [step, hf]
    · rwa [push_openGroups]
  | name | number | string | boolean =>
    refine ⟨_, rfl, ?_⟩
    rwa [push_openGroups]

/-- Tokens are read on to the end where the conditions hold of them behind those read before. -/
theorem readOnto_of_conditions {before after : List Token} {s : ReadState}
    (hs : readOnto .start before = .ok s) (hmatch : BracketsMatch (openGroups s.pending) after)
    (h : AllInPlace (before ++ after)) : ∃ fs, readOnto s after >>= finish = .ok fs := by
  -- What is read moves from `after` to `before`, so that the places stay those of one list.
  induction after generalizing before s with
  | nil =>
    obtain ⟨done, pending⟩ := s
    match pending with
    | [] => exact ⟨done.reverse, rfl⟩
    | .group b items :: outer => cases hmatch
    | .quote :: outer =>
      obtain ⟨ts, rest, heq, hts⟩ := quotable_of_pending hs rfl h
      obtain ⟨t, rest', rfl, -⟩ := hts.head
      cases heq
  | cons t after ih =>
    obtain ⟨s', hstep, hmatch'⟩ := step_of_conditions hs hmatch h
    obtain ⟨fs, hfs⟩ := ih (readOnto_concat.mpr ⟨s, hs, hstep⟩) hmatch' (by simpa using h)
    exact ⟨fs, by rwa [readOnto_step hstep]⟩

/-! ### The reader and the grammar -/

/-- A list of tokens can be read if and only if its brackets match and its quote marks and keywords
are in their places. -/
theorem readable_iff {ts : List Token} :
    (∃ fs, read ts = .ok fs) ↔ BracketsMatch [] ts ∧ AllInPlace ts := by
  constructor
  · rintro ⟨fs, hfs⟩
    have hts := read_spelling hfs
    have hmatch := hts.bracketsMatch [] []
    rw [List.append_nil] at hmatch
    exact ⟨hmatch.mpr rfl, hts.allInPlace⟩
  · rintro ⟨hmatch, h⟩
    have hstart : readOnto .start [] = .ok .start := rfl
    exact readOnto_of_conditions hstart hmatch h

/-- The reader inverts flattening on well-placed forms, what it reads is well placed and flattens to
the one plain spelling of the tokens, and it reads exactly the lists of tokens whose brackets match
and whose quote marks and keywords are in their places. -/
theorem reading_inverts_flattening :
    (∀ fs, wellPlacedAll fs = true → read (flattenAll fs) = .ok fs) ∧
    (∀ ts fs, read ts = .ok fs →
      wellPlacedAll fs = true ∧ ∀ ps, Phrases ts ps ↔ ps = flattenAll fs) ∧
    ∀ ts, (∃ fs, read ts = .ok fs) ↔ BracketsMatch [] ts ∧ AllInPlace ts := by
  refine ⟨fun fs hfs => ?_, fun ts fs h => ⟨?_, fun ps => ?_⟩, fun ts => readable_iff⟩
  · exact read_flattenAll (wellPlacedAll_iff.mp hfs)
  · exact wellPlacedAll_iff.mpr (read_wellPlaced h)
  · exact spelling_unique h

/-- The tokens of `{quote define} ''[x]`. -/
theorem reading_inverts_flattening_quotes :
    let ts : List Token := [.opening .curly, .keyword .quote, .keyword .define, .closing .curly,
      .quote, .quote, .opening .square, .name "x", .closing .square]
    let fs : List Form := [quoted (.name "define"), quoted (quoted (.group [.name "x"]))]
    read ts = .ok fs ∧ wellPlacedAll fs = true ∧ Phrases ts (flattenAll fs) ∧
      read (flattenAll fs) = .ok fs := by
  intro ts fs
  have hread : read ts = .ok fs := rfl
  obtain ⟨hback, hforward, -⟩ := reading_inverts_flattening
  obtain ⟨hplaced, hspelling⟩ := hforward ts fs hread
  exact ⟨hread, hplaced, (hspelling _).mpr rfl, hback fs (by decide)⟩

end Form
end BeginningStudent
