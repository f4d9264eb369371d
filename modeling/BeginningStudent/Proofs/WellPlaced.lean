import BeginningStudent.Form.Read
import BeginningStudent.Proofs.Yields

/-!
# Keywords in what is read

The reader lets keywords through only at the heads of groups (`Form.read_wellPlaced`). Behind a
quote mark they are the symbols of their names.
-/

namespace BeginningStudent.Form

/-! ### Well-placed forms -/

theorem wellPlacedAll_iff {fs : List Form} :
    wellPlacedAll fs = true ↔ ∀ f ∈ fs, f.wellPlaced = true := by
  induction fs with
  | nil => simp [wellPlacedAll]
  | cons f fs ih => simp [wellPlacedAll, ih]

theorem wellPlacedItems_cons {f : Form} {fs : List Form} :
    wellPlacedItems (f :: fs) = true ↔
      (f.wellPlaced = true ∨ ∃ k, f = .keyword k) ∧ ∀ g ∈ fs, g.wellPlaced = true := by
  cases f with
  | keyword k => simp [wellPlacedItems, wellPlacedAll_iff]
  | _ => simp [wellPlacedItems, wellPlacedAll_iff]

theorem wellPlaced_group {f : Form} {fs : List Form} :
    (group (f :: fs)).wellPlaced = true ↔
      (f.wellPlaced = true ∨ ∃ k, f = .keyword k) ∧ ∀ g ∈ fs, g.wellPlaced = true :=
  wellPlacedItems_cons

theorem wellPlacedItems_concat {items : List Form} {f : Form}
    (hitems : wellPlacedItems items = true) (hf : f.wellPlaced = true) :
    wellPlacedItems (items ++ [f]) = true := by
  cases items with
  | nil => exact wellPlacedItems_cons.mpr ⟨.inl hf, by simp⟩
  | cons g items =>
    obtain ⟨hg, hrest⟩ := wellPlacedItems_cons.mp hitems
    refine wellPlacedItems_cons.mpr ⟨hg, fun f' hf' => ?_⟩
    rcases List.mem_append.mp hf' with hf' | hf'
    · exact hrest f' hf'
    · rwa [List.mem_singleton.mp hf']

theorem wellPlaced_quoted {f : Form} (hf : f.wellPlaced = true) : f.quoted.wellPlaced = true :=
  wellPlaced_group.mpr ⟨.inr ⟨.quote, rfl⟩, by simpa using hf⟩

/-! ### States of reading -/

def Pending.WellPlaced : Pending → Prop
  | .group _ items => wellPlacedItems items.reverse = true
  | .quote => True

namespace ReadState

structure WellPlaced (s : ReadState) : Prop where
  done : ∀ f ∈ s.done, f.wellPlaced = true
  pending : ∀ p ∈ s.pending, p.WellPlaced

theorem start_wellPlaced : start.WellPlaced := ⟨by simp [start], by simp [start]⟩

theorem push_wellPlaced {done : List Form} {f : Form} {pending : List Pending}
    (hdone : ∀ g ∈ done, g.wellPlaced = true) (hf : f.wellPlaced = true)
    (hpending : ∀ p ∈ pending, p.WellPlaced) : (push done f pending).WellPlaced := by
  induction pending generalizing f with
  | nil =>
    refine ⟨fun g hg => ?_, by simp [push]⟩
    rcases List.mem_cons.mp hg with rfl | hg
    · exact hf
    · exact hdone g hg
  | cons p outer ih =>
    obtain ⟨hp, houter⟩ := List.forall_mem_cons.mp hpending
    cases p with
    | quote => exact ih (wellPlaced_quoted hf) houter
    | group b items =>
      refine ⟨hdone, List.forall_mem_cons.mpr ⟨?_, houter⟩⟩
      rw [Pending.WellPlaced, List.reverse_cons]
      exact wellPlacedItems_concat hp hf

theorem push_keywordForm_wellPlaced {s : ReadState} {k : Keyword} {f : Form} (hs : s.WellPlaced)
    (h : keywordForm? k s.pending = some f) : (push s.done f s.pending).WellPlaced := by
  obtain ⟨done, pending⟩ := s
  obtain ⟨hdone, hpending⟩ := hs
  dsimp only at h ⊢
  unfold keywordForm? at h
  split at h
  · cases h
    exact push_wellPlaced hdone rfl hpending
  · cases h
    obtain ⟨-, houter⟩ := List.forall_mem_cons.mp hpending
    refine ⟨hdone, List.forall_mem_cons.mpr ⟨?_, houter⟩⟩
    exact wellPlacedItems_cons.mpr ⟨.inr ⟨k, rfl⟩, by simp⟩
  · cases h
    exact push_wellPlaced hdone rfl hpending
  · cases h

theorem step_wellPlaced {s : ReadState} (hs : s.WellPlaced) (t : Token) :
    Yields WellPlaced (fun _ => True) (s.step t) := by
  cases t with
  | opening b =>
    refine ⟨hs.done, List.forall_mem_cons.mpr ⟨?_, hs.pending⟩⟩
    rfl
  | closing b =>
    have hpending := hs.pending
    rw [step, close]
    split
    · next opened items outer hp =>
      rw [hp] at hpending
      obtain ⟨hitems, houter⟩ := List.forall_mem_cons.mp hpending
      split
      · exact push_wellPlaced hs.done hitems houter
      · trivial
    · trivial
  | quote => exact ⟨hs.done, List.forall_mem_cons.mpr ⟨trivial, hs.pending⟩⟩
  | keyword k =>
    rw [step]
    split
    · exact push_keywordForm_wellPlaced hs ‹_›
    · trivial
  | name | number | string | boolean => exact push_wellPlaced hs.done rfl hs.pending

end ReadState

/-- Keywords that are read stand at the heads of groups. -/
theorem read_wellPlaced {ts : List Token} {fs : List Form} (h : read ts = .ok fs) :
    ∀ f ∈ fs, f.wellPlaced = true := by
  obtain ⟨s, hs, hfinish⟩ := bind_ok.mp h
  have hw : Yields ReadState.WellPlaced (fun _ => True) (readOnto .start ts) :=
    Yields.foldlM ts ReadState.start_wellPlaced fun _ hs t _ => ReadState.step_wellPlaced hs t
  rw [hs] at hw
  unfold ReadState.finish at hfinish
  split at hfinish
  · cases hfinish
    intro f hf
    exact hw.done f (List.mem_reverse.mp hf)
  · cases hfinish
  · cases hfinish

end BeginningStudent.Form
