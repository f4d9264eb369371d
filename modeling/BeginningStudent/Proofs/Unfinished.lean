import BeginningStudent.Proofs.Readable

/-!
# Unfinished input

What is read from the left either fails at some token, and then no further tokens help, or goes
through to the end. Then the tokens are forms, or some groups and quote marks wait: these are
reported as an early end of the input, and a form and the closing brackets of the groups complete
them. So an early end is reported exactly when more input can help (`Form.early_end_iff`).
-/

namespace BeginningStudent

open Token

/-- Does the error say that the input ends too early? -/
def ReadError.isEarlyEnd : ReadError → Bool
  | .unclosed _ | .unfinishedQuote => true
  | .unexpectedClosing _ | .mismatched _ _ | .misplacedKeyword _ => false

namespace Form

namespace ReadState

variable {s : ReadState} {e : ReadError}

/-! ### Where the errors come from -/

theorem step_error {t : Token} (h : s.step t = .error e) : e.isEarlyEnd = false := by
  cases t with
  | closing b =>
    simp only [step, close] at h
    split at h
    · split at h
      · cases h
      · cases h
        rfl
    · cases h
      rfl
  | keyword k =>
    simp only [step] at h
    split at h
    · cases h
    · cases h
      rfl
  | opening | quote | name | number | string | boolean => cases h

theorem finish_error (h : s.finish = .error e) : e.isEarlyEnd = true := by
  unfold finish at h
  split at h
  · cases h
  · cases h
    rfl
  · cases h
    rfl

/-! ### What is missing -/

/-- The tokens that complete what is pending: a form for the quote marks that wait, and the closing
brackets of the open groups. -/
def missing (s : ReadState) : List Token :=
  match s.pending with
  | .quote :: outer => .name "x" :: (openGroups outer).map .closing
  | pending => (openGroups pending).map .closing

/-- Where no quote mark waits, the closing brackets complete what is pending. -/
theorem readOnto_closings {bs : List Bracket} (hbs : openGroups s.pending = bs)
    (hquote : ∀ outer, s.pending ≠ .quote :: outer) :
    ∃ done, readOnto s (bs.map .closing) = .ok ⟨done, []⟩ := by
  induction bs generalizing s with
  | nil =>
    obtain ⟨done, pending⟩ := s
    cases pending with
    | nil => exact ⟨done, rfl⟩
    | cons p outer =>
      cases p with
      | quote => exact absurd rfl (hquote outer)
      | group b items => cases hbs
  | cons b bs ih =>
    obtain ⟨done, pending⟩ := s
    cases pending with
    | nil => cases hbs
    | cons p outer =>
      cases p with
      | quote => exact absurd rfl (hquote outer)
      | group b' items =>
        obtain ⟨rfl, houter⟩ := List.cons.inj hbs
        have hclose : step ⟨done, .group b' items :: outer⟩ (.closing b') =
            .ok (push done (.group items.reverse) outer) := if_pos rfl
        rw [List.map_cons, readOnto_step hclose]
        apply ih
        · rw [push_openGroups, houter]
        · intro outer'
          exact push_pending_ne_quote

theorem readOnto_missing (s : ReadState) : ∃ done, readOnto s s.missing = .ok ⟨done, []⟩ := by
  unfold missing
  split
  · next outer hpending =>
    have hname : s.step (.name "x") = .ok (push s.done (.name "x") s.pending) := rfl
    rw [readOnto_step hname]
    apply readOnto_closings
    · rw [push_openGroups, hpending]
      rfl
    · intro outer'
      exact push_pending_ne_quote
  · next hquote => exact readOnto_closings rfl fun outer => hquote outer

end ReadState

open ReadState

variable {ts : List Token} {e : ReadError}

/-! ### Reading and its extensions -/

theorem readOnto_error {s : ReadState} (h : readOnto s ts = .error e) : e.isEarlyEnd = false := by
  induction ts generalizing s with
  | nil => cases h
  | cons t ts ih =>
    rw [readOnto_cons] at h
    rcases bind_error.mp h with hstep | ⟨s', -, hrest⟩
    · exact step_error hstep
    · exact ih hrest

theorem read_append_of_late (h : read ts = .error e) (hlate : e.isEarlyEnd = false)
    (us : List Token) : read (ts ++ us) = .error e := by
  rcases bind_error.mp h with hread | ⟨s, -, hfinish⟩
  · rw [read, readOnto_append, hread]
    rfl
  · rw [finish_error hfinish] at hlate
    cases hlate

/-- Only an early end has extensions that can be read. -/
theorem read_extends_iff (h : read ts = .error e) :
    (∃ us fs, read (ts ++ us) = .ok fs) ↔ e.isEarlyEnd = true := by
  constructor
  · intro hextends
    obtain ⟨us, fs, hfs⟩ := hextends
    cases hearly : e.isEarlyEnd with
    | true => rfl
    | false =>
      rw [read_append_of_late h hearly us] at hfs
      cases hfs
  · intro hearly
    rcases bind_error.mp h with hread | ⟨s, hread, -⟩
    · rw [readOnto_error hread] at hearly
      cases hearly
    · obtain ⟨done, hdone⟩ := s.readOnto_missing
      refine ⟨s.missing, done.reverse, ?_⟩
      rw [read, readOnto_trans hread, hdone]
      rfl

theorem isEarlyEnd_iff : e.isEarlyEnd = true ↔ (∃ b, e = .unclosed b) ∨ e = .unfinishedQuote := by
  cases e <;> simp [ReadError.isEarlyEnd]

/-- Reading fails at the end of the tokens, with an open group or with a quote mark that waits, if
and only if the tokens can not be read but some extension of them can. With any other error that it
fails with, every extension fails too. -/
theorem early_end_iff (ts : List Token) :
    ((∃ b, read ts = .error (.unclosed b)) ∨ read ts = .error .unfinishedQuote ↔
        (¬∃ fs, read ts = .ok fs) ∧ ∃ us fs, read (ts ++ us) = .ok fs) ∧
      ∀ e, read ts = .error e → (∀ b, e ≠ .unclosed b) → e ≠ .unfinishedQuote →
        ∀ us, read (ts ++ us) = .error e := by
  cases h : read ts with
  | ok fs => simp
  | error e =>
    constructor
    · rw [read_extends_iff h, isEarlyEnd_iff]
      simp
    · intro e' he' hunclosed hquote us
      cases he'
      apply read_append_of_late h
      rw [Bool.eq_false_iff]
      intro hearly
      rcases isEarlyEnd_iff.mp hearly with ⟨b, hb⟩ | he
      · exact hunclosed b hb
      · exact hquote he

/-- The tokens of `('` end early, and those of `([)` with a bracket that closes neither group. -/
theorem early_end_iff_quote :
    (∃ us fs, read ([.opening .round, .quote] ++ us) = .ok fs) ∧
      ∀ us, read ([.opening .round, .opening .square, .closing .round] ++ us) =
        .error (.mismatched .square .round) := by
  refine ⟨((early_end_iff _).1.mp (.inr rfl)).2, ?_⟩
  refine (early_end_iff _).2 _ rfl ?_ ?_
  · intro b hb
    cases hb
  · intro h
    cases h

end Form
end BeginningStudent
