import BeginningStudent.Token.Scan
import BeginningStudent.Proofs.Yields

/-!
# Block comments

A block comment is the shortest text that begins with `#|` and in which as many comments are closed
as are opened. The marks of a text are found from left to right and do not overlap, so `#|#` opens
one comment and closes none. The scanner drops exactly such a text (`dropComments_block_iff`).
-/

namespace BeginningStudent.Token

/-! ### Marks -/

/-- A mark of a block comment. -/
inductive Mark where
  | opening
  | closing
deriving DecidableEq

/-- The marks `#|` and `|#` of a text, from left to right and without overlap. -/
def marks : List Char → List Mark
  | '#' :: '|' :: s => .opening :: marks s
  | '|' :: '#' :: s => .closing :: marks s
  | _ :: s => marks s
  | [] => []

/-- Behind `depth` open comments, the text closes as many comments as are open. -/
def Balances (depth : Nat) (s : List Char) : Prop :=
  depth + (marks s).count .opening = (marks s).count .closing

/-- The text is a block comment: it begins with `#|`, its marks balance, and they balance in no
shorter text that begins so. -/
def IsBlockComment (s : List Char) : Prop :=
  ['#', '|'] <+: s ∧ Balances 0 s ∧ ∀ t, t <+: s → ['#', '|'] <+: t → Balances 0 t → t = s

example : marks "#|#|# |#|".toList = [.opening, .opening, .closing] := by decide

theorem marks_nil : marks [] = [] := rfl

theorem marks_opening (s : List Char) : marks ('#' :: '|' :: s) = .opening :: marks s := rfl

theorem marks_closing (s : List Char) : marks ('|' :: '#' :: s) = .closing :: marks s := rfl

theorem marks_cons {c : Char} {s : List Char} (hopen : ∀ rest, c = '#' → s ≠ '|' :: rest)
    (hclose : ∀ rest, c = '|' → s ≠ '#' :: rest) : marks (c :: s) = marks s := by
  rw [marks]
  · exact fun rest hc hs => hopen rest hc hs
  · exact fun rest hc hs => hclose rest hc hs

theorem balances_opening {depth : Nat} {s : List Char} :
    Balances depth ('#' :: '|' :: s) ↔ Balances (depth + 1) s := by
  simp only [Balances, marks_opening, List.count_cons_self, List.count_cons_of_ne, ne_eq,
    reduceCtorEq, not_false_eq_true]
  omega

theorem balances_closing {depth : Nat} {s : List Char} :
    Balances (depth + 1) ('|' :: '#' :: s) ↔ Balances depth s := by
  simp only [Balances, marks_closing, List.count_cons_self, List.count_cons_of_ne, ne_eq,
    reduceCtorEq, not_false_eq_true]
  omega

theorem not_balances_nil {depth : Nat} : ¬ Balances (depth + 1) [] := by
  simp [Balances, marks_nil]

theorem not_balances_single {depth : Nat} {c : Char} : ¬ Balances (depth + 1) [c] := by
  rw [Balances, marks_cons (by simp) (by simp)]
  exact not_balances_nil

theorem Balances.exists_cons_cons {depth : Nat} {s : List Char} (h : Balances (depth + 1) s) :
    ∃ c d t, s = c :: d :: t := by
  cases s with
  | nil => exact absurd h not_balances_nil
  | cons c s =>
    cases s with
    | nil => exact absurd h not_balances_single
    | cons d t => exact ⟨c, d, t, rfl⟩

/-! ### The end of a comment -/

/-- Behind `depth` open comments the text is the shortest that closes them. -/
def Ends (depth : Nat) (s : List Char) : Prop :=
  Balances depth s ∧ ∀ t, t <+: s → Balances depth t → t = s

theorem ends_zero {s : List Char} : Ends 0 s ↔ s = [] := by
  constructor
  · rintro ⟨-, hshortest⟩
    exact (hshortest [] (List.nil_prefix) rfl).symm
  · rintro rfl
    exact ⟨rfl, fun t ht _ => List.prefix_nil.mp ht⟩

theorem ends_cons_cons {depth depth' : Nat} {c d : Char} {s : List Char}
    (h : ∀ t, Balances (depth + 1) (c :: d :: t) ↔ Balances depth' t) :
    Ends (depth + 1) (c :: d :: s) ↔ Ends depth' s := by
  constructor
  · rintro ⟨hs, hshortest⟩
    refine ⟨(h s).mp hs, fun t ht hbalances => ?_⟩
    have heq := hshortest (c :: d :: t) (by simpa using ht) ((h t).mpr hbalances)
    simpa using heq
  · rintro ⟨hs, hshortest⟩
    refine ⟨(h s).mpr hs, fun t ht hbalances => ?_⟩
    obtain ⟨_, _, t, rfl⟩ := hbalances.exists_cons_cons
    simp only [List.cons_prefix_cons] at ht
    obtain ⟨rfl, rfl, ht⟩ := ht
    rw [hshortest t ht ((h t).mp hbalances)]

theorem ends_cons {depth : Nat} {c : Char} {s : List Char}
    (h : ∀ t, t <+: s → marks (c :: t) = marks t) :
    Ends (depth + 1) (c :: s) ↔ Ends (depth + 1) s := by
  constructor
  · rintro ⟨hs, hshortest⟩
    rw [Balances, h s (List.prefix_refl s)] at hs
    refine ⟨hs, fun t ht hbalances => ?_⟩
    have heq := hshortest (c :: t) (by simpa using ht) (by rwa [Balances, h t ht])
    simpa using heq
  · rintro ⟨hs, hshortest⟩
    refine ⟨by rwa [Balances, h s (List.prefix_refl s)], fun t ht hbalances => ?_⟩
    cases t with
    | nil => exact absurd hbalances not_balances_nil
    | cons d t =>
      rw [List.cons_prefix_cons] at ht
      obtain ⟨rfl, ht⟩ := ht
      rw [Balances, h t ht] at hbalances
      rw [hshortest t ht hbalances]

theorem not_ends_nil {depth : Nat} : ¬ Ends (depth + 1) [] := fun h => not_balances_nil h.1

/-- What is behind `depth` nested comments is what is behind the shortest text that closes them. -/
theorem dropComments_iff {depth : Nat} {s rest : List Char} :
    dropComments depth s = some rest ↔ ∃ t, s = t ++ rest ∧ Ends depth t := by
  fun_induction dropComments depth s with
  | case1 s => simp [ends_zero, eq_comm]
  | case2 depth s ih =>
    rw [ih]
    constructor
    · rintro ⟨t, rfl, ht⟩
      exact ⟨'|' :: '#' :: t, rfl, (ends_cons_cons fun _ => balances_closing).mpr ht⟩
    · rintro ⟨t, heq, ht⟩
      obtain ⟨_, _, t, rfl⟩ := ht.1.exists_cons_cons
      cases heq
      exact ⟨t, rfl, (ends_cons_cons fun _ => balances_closing).mp ht⟩
  | case3 depth s ih =>
    rw [ih]
    constructor
    · rintro ⟨t, rfl, ht⟩
      exact ⟨'#' :: '|' :: t, rfl, (ends_cons_cons fun _ => balances_opening).mpr ht⟩
    · rintro ⟨t, heq, ht⟩
      obtain ⟨_, _, t, rfl⟩ := ht.1.exists_cons_cons
      cases heq
      exact ⟨t, rfl, (ends_cons_cons fun _ => balances_opening).mp ht⟩
  | case4 depth c s hclose hopen ih =>
    -- A mark of `c` and the first character of a shorter text would be one of the whole text.
    have hmarks : ∀ t, t <+: s → marks (c :: t) = marks t := by
      rintro t ⟨u, rfl⟩
      refine marks_cons (fun rest hc ht => ?_) (fun rest hc ht => ?_)
      · exact hopen (rest ++ u) hc (by rw [ht]; rfl)
      · exact hclose (rest ++ u) hc (by rw [ht]; rfl)
    rw [ih]
    constructor
    · rintro ⟨t, rfl, ht⟩
      exact ⟨c :: t, rfl, (ends_cons fun u hu => hmarks u (hu.trans (t.prefix_append rest))).mpr ht⟩
    · rintro ⟨t, heq, ht⟩
      cases t with
      | nil => exact absurd ht not_ends_nil
      | cons _ t =>
        cases heq
        exact ⟨t, rfl, (ends_cons fun u hu => hmarks u (hu.trans (t.prefix_append rest))).mp ht⟩
  | case5 =>
    simp only [reduceCtorEq, false_iff]
    rintro ⟨t, heq, ht⟩
    obtain ⟨rfl, -⟩ := List.append_eq_nil_iff.mp heq.symm
    exact not_ends_nil ht

theorem isBlockComment_iff {s : List Char} :
    IsBlockComment s ↔ ∃ t, s = '#' :: '|' :: t ∧ Ends 1 t := by
  constructor
  · rintro ⟨⟨t, rfl⟩, hs, hshortest⟩
    refine ⟨t, rfl, balances_opening.mp hs, fun u hu hbalances => ?_⟩
    have heq := hshortest ('#' :: '|' :: u) (by simpa using hu) ⟨u, rfl⟩
      (balances_opening.mpr hbalances)
    simpa using heq
  · rintro ⟨t, rfl, ht, hshortest⟩
    refine ⟨⟨t, rfl⟩, balances_opening.mpr ht, ?_⟩
    rintro _ hprefix ⟨u, rfl⟩ hbalances
    have hu : u <+: t := by simpa using hprefix
    rw [hshortest u hu (balances_opening.mp hbalances)]
    rfl

/-- The scanner drops the block comment that begins a text, if there is one. -/
theorem dropComments_block_iff {s rest : List Char} :
    dropComments 1 s = some rest ↔ ∃ t, '#' :: '|' :: s = t ++ rest ∧ IsBlockComment t := by
  rw [dropComments_iff]
  constructor
  · rintro ⟨t, rfl, ht⟩
    exact ⟨'#' :: '|' :: t, rfl, isBlockComment_iff.mpr ⟨t, rfl, ht⟩⟩
  · rintro ⟨t, heq, ht⟩
    obtain ⟨u, rfl, hu⟩ := isBlockComment_iff.mp ht
    cases heq
    exact ⟨u, rfl, hu⟩

theorem dropComments_eq_none_iff {s : List Char} :
    dropComments 1 s = none ↔ ¬ ∃ t, t <+: '#' :: '|' :: s ∧ IsBlockComment t := by
  rw [Option.eq_none_iff_forall_ne_some]
  constructor
  · rintro h ⟨t, ⟨rest, heq⟩, ht⟩
    exact h rest (dropComments_block_iff.mpr ⟨t, heq.symm, ht⟩)
  · intro h rest hrest
    obtain ⟨t, heq, ht⟩ := dropComments_block_iff.mp hrest
    exact h ⟨t, ⟨rest, heq.symm⟩, ht⟩

end BeginningStudent.Token
