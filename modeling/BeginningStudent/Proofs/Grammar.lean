import BeginningStudent.Proofs.Lines
import BeginningStudent.Proofs.WellPlaced

/-!
# The grammar of tokens

Which lists of tokens spell forms, said without the reader: `Phrases ts ps` holds when `ts` spells
forms one after the other and `ps` spells the same forms plainly, in round brackets and without
quote marks. The reader accepts exactly the lists that the grammar derives, and what it reads
flattens to the plain spelling (`Form.read_phrases`, `Form.read_spelling`).
-/

namespace BeginningStudent

namespace Token

/-! ### Derivations -/

def isAtom : Token → Bool
  | .name _ | .number _ | .string _ | .boolean _ => true
  | .opening _ | .closing _ | .quote | .keyword _ => false

/-- The plain spelling of a quoted form, given that of the form. -/
def quotedGroup (ps : List Token) : List Token :=
  .opening .round :: .keyword .quote :: (ps ++ [.closing .round])

/-- What a group may begin with before its other items: nothing, a keyword, or the keyword `quote`
and a keyword that it quotes, which stands for its name. -/
inductive Head : List Token → List Token → Prop
  | bare : Head [] []
  | keyword (k : Keyword) : Head [.keyword k] [.keyword k]
  | quoted (k : Keyword) : Head [.keyword .quote, .keyword k] [.keyword .quote, .name k.name]

mutual

/-- The first list spells one form, the second spells it plainly. -/
inductive Phrase : List Token → List Token → Prop
  | atom {t : Token} (ht : t.isAtom = true) : Phrase [t] [t]
  | group (b : Bracket) {hs is ps qs : List Token} (hhead : Head hs ps) (hitems : Phrases is qs) :
    Phrase (.opening b :: (hs ++ is ++ [.closing b]))
      (.opening .round :: (ps ++ qs ++ [.closing .round]))
  | quote {ts ps : List Token} (h : Phrase ts ps) : Phrase (.quote :: ts) (quotedGroup ps)
  | quotedKeyword (k : Keyword) : Phrase [.quote, .keyword k] (quotedGroup [.name k.name])

/-- The first list spells forms that follow each other, the second spells them plainly. -/
inductive Phrases : List Token → List Token → Prop
  | nil : Phrases [] []
  | cons {ts us ps qs : List Token} (h : Phrase ts ps) (hs : Phrases us qs) :
    Phrases (ts ++ us) (ps ++ qs)

end

theorem Phrase.phrases {ts ps : List Token} (h : Phrase ts ps) : Phrases ts ps := by
  simpa using Phrases.cons h .nil

theorem Phrases.append : ∀ {ts ps us qs : List Token}, Phrases ts ps → Phrases us qs →
    Phrases (ts ++ us) (ps ++ qs)
  | _, _, _, _, .nil, hus => hus
  | _, _, _, _, .cons h hs, hus => by
    rw [List.append_assoc, List.append_assoc]
    exact .cons h (hs.append hus)

theorem Phrases.concat {ts ps us qs : List Token} (hts : Phrases ts ps) (h : Phrase us qs) :
    Phrases (ts ++ us) (ps ++ qs) := hts.append h.phrases

theorem Phrase.plain_head {ts ps : List Token} (h : Phrase ts ps) :
    ∃ t rest, ps = t :: rest ∧ ∀ k, t ≠ .keyword k := by
  cases h with
  | atom ht =>
    refine ⟨_, _, rfl, ?_⟩
    rintro k rfl
    simp [isAtom] at ht
  | group | quote | quotedKeyword => exact ⟨_, _, rfl, by simp⟩

theorem Phrases.eq_nil {ts : List Token} (h : Phrases ts []) : ts = [] := by
  generalize hps : ([] : List Token) = ps at h
  cases h with
  | nil => rfl
  | cons h hs =>
    obtain ⟨t, rest, rfl, -⟩ := h.plain_head
    cases hps

theorem Phrases.plain_ne_keyword {ts rest : List Token} {k : Keyword} :
    ¬ Phrases ts (.keyword k :: rest) := by
  intro h
  generalize hps : Token.keyword k :: rest = ps at h
  cases h with
  | nil => cases hps
  | cons h hs =>
    obtain ⟨t, rest', rfl, ht⟩ := h.plain_head
    cases hps
    exact ht k rfl

end Token

namespace Form

open Token

/-! ### Reading what is derived -/

namespace ReadState

def pushAll (s : ReadState) (fs : List Form) : ReadState :=
  fs.foldl (fun s f => push s.done f s.pending) s

theorem pushAll_top (done fs : List Form) : pushAll ⟨done, []⟩ fs = ⟨fs.reverse ++ done, []⟩ := by
  induction fs generalizing done with
  | nil => rfl
  | cons f fs ih =>
    refine (ih (f :: done)).trans ?_
    simp

theorem pushAll_group (done : List Form) (b : Bracket) (items : List Form) (outer : List Pending)
    (fs : List Form) :
    pushAll ⟨done, .group b items :: outer⟩ fs = ⟨done, .group b (fs.reverse ++ items) :: outer⟩ := by
  induction fs generalizing items with
  | nil => rfl
  | cons f fs ih =>
    refine (ih (f :: items)).trans ?_
    simp

theorem finish_pushAll (fs : List Form) : (start.pushAll fs).finish = .ok fs := by
  rw [start, pushAll_top]
  simp [finish]

end ReadState

open ReadState

theorem readOnto_cons (s : ReadState) (t : Token) (ts : List Token) :
    readOnto s (t :: ts) = s.step t >>= (readOnto · ts) := List.foldlM_cons

theorem readOnto_trans {s s' : ReadState} {ts us : List Token} (h : readOnto s ts = .ok s') :
    readOnto s (ts ++ us) = readOnto s' us := by
  rw [readOnto_append, h]
  rfl

theorem readOnto_step {s s' : ReadState} {t : Token} {ts : List Token} (h : s.step t = .ok s') :
    readOnto s (t :: ts) = readOnto s' ts := by
  rw [readOnto_cons, h]
  rfl

theorem step_atom {t : Token} (ht : t.isAtom = true) :
    ∃ f : Form, f.flatten = [t] ∧ ∀ s : ReadState, s.step t = .ok (push s.done f s.pending) := by
  cases t with
  | name n => exact ⟨.name n, by rw [flatten], fun _ => rfl⟩
  | number n => exact ⟨.number n, by rw [flatten], fun _ => rfl⟩
  | string n => exact ⟨.string n, by rw [flatten], fun _ => rfl⟩
  | boolean b => exact ⟨.boolean b, by rw [flatten], fun _ => rfl⟩
  | opening | closing | quote | keyword => simp [isAtom] at ht

theorem readOnto_head {hs ps : List Token} (h : Head hs ps) :
    ∃ fs, flattenAll fs = ps ∧ ∀ done b outer,
      readOnto ⟨done, .group b [] :: outer⟩ hs = .ok ⟨done, .group b fs.reverse :: outer⟩ := by
  cases h with
  | bare => exact ⟨[], rfl, fun _ _ _ => rfl⟩
  | keyword k => exact ⟨[.keyword k], rfl, fun _ _ _ => rfl⟩
  | quoted k => exact ⟨[.keyword .quote, .name k.name], rfl, fun _ _ _ => rfl⟩

theorem flatten_quoted (f : Form) : f.quoted.flatten = quotedGroup f.flatten := by
  simp [quoted, flatten, flattenAll, quotedGroup]

/-- A bracket, what a group begins with, its items and the closing bracket are read as the group. -/
theorem readOnto_group (b : Bracket) (hs : List Token) (heads : List Form) {is : List Token}
    {items : List Form}
    (hhead : ∀ done b outer,
      readOnto ⟨done, .group b [] :: outer⟩ hs = .ok ⟨done, .group b heads.reverse :: outer⟩)
    (hitems : ∀ s, readOnto s is = .ok (s.pushAll items)) (s : ReadState) :
    readOnto s (.opening b :: (hs ++ is ++ [.closing b])) =
      .ok (push s.done (.group (heads ++ items)) s.pending) := by
  have hopen : s.step (.opening b) = .ok ⟨s.done, .group b [] :: s.pending⟩ := rfl
  rw [readOnto_step hopen, List.append_assoc, readOnto_trans (hhead s.done b s.pending),
    readOnto_trans (hitems _), pushAll_group]
  simp [readOnto, step, close]

mutual

/-- What spells a form is read as a form with the same plain spelling. -/
theorem readOnto_phrase : ∀ {ts ps : List Token}, Phrase ts ps →
    ∃ f : Form, f.flatten = ps ∧ ∀ s, readOnto s ts = .ok (push s.done f s.pending)
  | _, _, .atom ht => by
    obtain ⟨f, hf, hstep⟩ := step_atom ht
    exact ⟨f, hf, fun s => readOnto_step (hstep s)⟩
  | _, _, .group b hhead hitems => by
    obtain ⟨heads, rfl, hheads⟩ := readOnto_head hhead
    obtain ⟨items, rfl, hread⟩ := readOnto_phrases hitems
    exact ⟨.group (heads ++ items), by rw [flatten, flattenAll_append],
      readOnto_group b _ heads hheads hread⟩
  | _, _, .quote h => by
    obtain ⟨f, rfl, hread⟩ := readOnto_phrase h
    refine ⟨f.quoted, flatten_quoted f, fun s => ?_⟩
    have hmark : s.step .quote = .ok ⟨s.done, .quote :: s.pending⟩ := rfl
    rw [readOnto_step hmark, hread]
    rfl
  | _, _, .quotedKeyword k => ⟨(Form.name k.name).quoted, rfl, fun _ => rfl⟩

theorem readOnto_phrases : ∀ {ts ps : List Token}, Phrases ts ps →
    ∃ fs : List Form, flattenAll fs = ps ∧ ∀ s, readOnto s ts = .ok (s.pushAll fs)
  | _, _, .nil => ⟨[], rfl, fun _ => rfl⟩
  | _, _, .cons h hs => by
    obtain ⟨f, rfl, hf⟩ := readOnto_phrase h
    obtain ⟨fs, rfl, hfs⟩ := readOnto_phrases hs
    refine ⟨f :: fs, by rw [flattenAll], fun s => ?_⟩
    rw [readOnto_trans (hf s), hfs]
    rfl

end

/-- What the grammar derives is read, and the forms flatten to the plain spelling. -/
theorem read_phrases {ts ps : List Token} (h : Phrases ts ps) :
    ∃ fs, read ts = .ok fs ∧ flattenAll fs = ps := by
  obtain ⟨fs, hps, hread⟩ := readOnto_phrases h
  refine ⟨fs, ?_, hps⟩
  rw [read, hread]
  exact finish_pushAll fs

/-! ### Reading well-placed forms back -/

mutual

theorem readOnto_flatten (f : Form) (hf : f.wellPlaced = true) (s : ReadState) :
    readOnto s f.flatten = .ok (push s.done f s.pending) := by
  match f with
  | .name _ | .number _ | .string _ | .boolean _ =>
    rw [flatten]
    rfl
  | .keyword _ => cases hf
  | .group [] =>
    rw [flatten]
    rfl
  | .group (g :: items) =>
    -- A keyword at the head is no form by itself, so it is read before the items.
    obtain ⟨hg, hitems⟩ := wellPlaced_group.mp hf
    rcases hg with hg | ⟨k, rfl⟩
    · have hread := readOnto_group .round [] [] (fun _ _ _ => rfl)
        (readOnto_flattenAll (g :: items) (List.forall_mem_cons.mpr ⟨hg, hitems⟩)) s
      simpa [flatten] using hread
    · have hread := readOnto_group .round [.keyword k] [.keyword k] (fun _ _ _ => rfl)
        (readOnto_flattenAll items hitems) s
      simpa [flatten, flattenAll] using hread
termination_by sizeOf f

theorem readOnto_flattenAll (fs : List Form) (hfs : ∀ f ∈ fs, f.wellPlaced = true)
    (s : ReadState) : readOnto s (flattenAll fs) = .ok (s.pushAll fs) := by
  match fs with
  | [] => rfl
  | f :: fs =>
    obtain ⟨hf, hfs⟩ := List.forall_mem_cons.mp hfs
    rw [flattenAll, readOnto_trans (readOnto_flatten f hf s), readOnto_flattenAll fs hfs]
    rfl
termination_by sizeOf fs

end

theorem read_flattenAll {fs : List Form} (hfs : ∀ f ∈ fs, f.wellPlaced = true) :
    read (flattenAll fs) = .ok fs := by
  rw [read, readOnto_flattenAll fs hfs]
  exact finish_pushAll fs

/-! ### What has been read is derived -/

namespace ReadState

/-- The tokens read so far, by the places they stand in: those of the complete forms, and behind
them, from the outermost inward, the quote marks and the beginnings of groups that are pending. -/
inductive Covers (done : List Form) : List Pending → List Token → Prop
  | top {ts : List Token} (h : Phrases ts (flattenAll done.reverse)) : Covers done [] ts
  | quote {outer : List Pending} {ts : List Token} (h : Covers done outer ts) :
    Covers done (.quote :: outer) (ts ++ [.quote])
  | group (b : Bracket) {outer : List Pending} {items : List Form} {ts hs is ps qs : List Token}
    (h : Covers done outer ts) (hhead : Head hs ps) (his : Phrases is qs)
    (hitems : flattenAll items.reverse = ps ++ qs) :
    Covers done (.group b items :: outer) (ts ++ .opening b :: (hs ++ is))

theorem flattenAll_reverse_cons (f : Form) (fs : List Form) :
    flattenAll (f :: fs).reverse = flattenAll fs.reverse ++ f.flatten := by
  rw [List.reverse_cons, flattenAll_append]
  simp [flattenAll]

theorem push_covers {done : List Form} {f : Form} {pending : List Pending} {ts us : List Token}
    (h : Covers done pending ts) (hf : Phrase us f.flatten) :
    Covers (push done f pending).done (push done f pending).pending (ts ++ us) := by
  -- A quote mark that waits turns the form into a quoted one for what waits outside of it.
  induction pending generalizing f ts us with
  | nil =>
    obtain ⟨hdone⟩ := h
    exact .top (by rw [push, flattenAll_reverse_cons]; exact hdone.concat hf)
  | cons p outer ih =>
    cases h with
    | quote h =>
      rw [List.append_assoc]
      exact ih h (by rw [flatten_quoted]; exact .quote hf)
    | group b h hhead his hitems =>
      rw [List.append_assoc, List.cons_append, List.append_assoc]
      refine .group b h hhead (his.concat hf) ?_
      rw [flattenAll_reverse_cons, hitems, List.append_assoc]

theorem Covers.bare {done : List Form} {b : Bracket} {outer : List Pending} {ts : List Token}
    (h : Covers done (.group b [] :: outer) ts) :
    ∃ us, ts = us ++ [.opening b] ∧ Covers done outer us := by
  cases h with
  | group b h hhead his hitems =>
    obtain ⟨rfl, rfl⟩ := List.append_eq_nil_iff.mp hitems.symm
    cases hhead
    rw [his.eq_nil]
    exact ⟨_, rfl, h⟩

theorem Covers.quoting {done : List Form} {b : Bracket} {outer : List Pending} {ts : List Token}
    (h : Covers done (.group b [.keyword .quote] :: outer) ts) :
    ∃ us, ts = us ++ [.opening b, .keyword .quote] ∧ Covers done outer us := by
  cases h with
  | group b h hhead his hitems =>
    cases hhead with
    | bare =>
      -- The keyword would be the spelling of an item.
      cases hitems
      exact absurd his Phrases.plain_ne_keyword
    | keyword k =>
      cases hitems
      rw [his.eq_nil]
      exact ⟨_, rfl, h⟩
    | quoted k => cases hitems

theorem keywordForm?_covers {done : List Form} {pending : List Pending} {k : Keyword} {f : Form}
    {ts : List Token} (h : Covers done pending ts) (hf : keywordForm? k pending = some f) :
    Covers (push done f pending).done (push done f pending).pending (ts ++ [.keyword k]) := by
  unfold keywordForm? at hf
  split at hf
  · cases hf
    cases h with
    | quote h =>
      have hquoted : Phrase [.quote, .keyword k] (name k.name).quoted.flatten := by
        rw [flatten_quoted, flatten]
        exact .quotedKeyword k
      have hpush := push_covers h hquoted
      rw [List.append_assoc]
      exact hpush
  · next b outer =>
    cases hf
    obtain ⟨us, rfl, hus⟩ := h.bare
    have hgroup : Covers done (.group b [.keyword k] :: outer)
        (us ++ .opening b :: ([.keyword k] ++ [])) := .group b hus (.keyword k) .nil rfl
    rw [List.append_assoc]
    exact hgroup
  · next b outer =>
    cases hf
    obtain ⟨us, rfl, hus⟩ := h.quoting
    have hgroup : Covers done (.group b [.name k.name, .keyword .quote] :: outer)
        (us ++ .opening b :: ([.keyword .quote, .keyword k] ++ [])) :=
      .group b hus (.quoted k) .nil rfl
    rw [List.append_assoc]
    exact hgroup
  · cases hf

theorem step_covers {s s' : ReadState} {t : Token} {ts : List Token}
    (h : Covers s.done s.pending ts) (hs : s.step t = .ok s') :
    Covers s'.done s'.pending (ts ++ [t]) := by
  obtain ⟨done, pending⟩ := s
  cases t with
  | opening b =>
    cases hs
    exact .group b h .bare .nil rfl
  | quote =>
    cases hs
    exact .quote h
  | closing b =>
    simp only [step, close] at hs
    split at hs
    · next opened items outer =>
      split at hs
      · next hb =>
        cases hs
        subst hb
        cases h with
        | group _ h hhead his hitems =>
          rw [List.append_assoc]
          exact push_covers h (by rw [flatten, hitems]; exact .group opened hhead his)
      · cases hs
    · cases hs
  | keyword k =>
    simp only [step] at hs
    split at hs
    · cases hs
      exact keywordForm?_covers h ‹_›
    · cases hs
  | name | number | string | boolean =>
    cases hs
    exact push_covers h (by rw [flatten]; exact .atom rfl)

theorem readOnto_covers {s s' : ReadState} {ts us : List Token}
    (h : Covers s.done s.pending ts) (hs : readOnto s us = .ok s') :
    Covers s'.done s'.pending (ts ++ us) := by
  induction us generalizing s ts with
  | nil =>
    cases hs
    rwa [List.append_nil]
  | cons t us ih =>
    rw [readOnto_cons] at hs
    obtain ⟨s'', hstep, hs⟩ := bind_ok.mp hs
    rw [List.append_cons]
    exact ih (step_covers h hstep) hs

end ReadState

/-- What is read is derived by the grammar, and its forms flatten to the plain spelling. -/
theorem read_spelling {ts : List Token} {fs : List Form} (h : read ts = .ok fs) :
    Phrases ts (flattenAll fs) := by
  obtain ⟨s, hs, hfinish⟩ := bind_ok.mp h
  have hstart : Covers ReadState.start.done ReadState.start.pending [] := .top .nil
  have hcovers := readOnto_covers hstart hs
  rw [finish_ok hfinish] at hcovers
  cases hcovers with
  | top h => simpa [start, onto] using h

/-- The plain spelling of a list of tokens is the flattening of what it is read as, and no other. -/
theorem spelling_unique {ts ps : List Token} {fs : List Form} (h : read ts = .ok fs) :
    Phrases ts ps ↔ ps = flattenAll fs := by
  constructor
  · intro hps
    obtain ⟨gs, hgs, rfl⟩ := read_phrases hps
    rw [h] at hgs
    cases hgs
    rfl
  · rintro rfl
    exact read_spelling h

end Form
end BeginningStudent
