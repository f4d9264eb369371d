import BeginningStudent.Primitive.Operation
import BeginningStudent.Proofs.Yields

/-!
# Slices of strings

`string-length`, `substring` and `string-append` count the same characters. A slice is there where
its indices are in order and within the string, its length is their difference, a slice of a slice
is a slice of the whole, and the two slices at an index make up the string again. Among the indices,
one that is no natural number is reported first, then the start and last the end
(`Primitive.slices_coherent`).
-/

namespace BeginningStudent

def Value.index (n : Nat) : Value := .number (.ofInt n)

def Primitive.answer (p : Primitive) (args : List Value) : Except String Value :=
  (p.apply args).mapError (·.message p.name)

open Value (index)

/-! ### Indices -/

namespace Argument

variable {v : Value} {n : Nat}

def IsIndex (v : Value) : Prop := ∃ n < indexLimit, v = index n

theorem natural_index (hn : n < indexLimit) : natural (index n) = .ok n := by
  have hfits : (n : Int) < indexLimit := Int.ofNat_lt.mpr hn
  have hnatural : natural (index n) =
      if 0 ≤ (n : Int) ∧ (n : Int) < indexLimit then .ok n
      else .error (.expected .natural (index n)) := by
    simp [natural, index, Number.ofInt, RealNumber.ofInt]
  rw [hnatural, if_pos ⟨Int.natCast_nonneg n, hfits⟩]

theorem natural_of_not_isIndex (h : ¬IsIndex v) : natural v = .error (.expected .natural v) := by
  unfold natural
  split
  · next q =>
    apply if_neg
    rintro ⟨hden, hnonneg, hfits⟩
    refine h ⟨q.num.toNat, by omega, ?_⟩
    have hq : (q.num : Rat) = q := by
      apply Rat.ext
      · simp
      · simp [hden]
    rw [index, Int.toNat_of_nonneg hnonneg, Number.ofInt, RealNumber.ofInt, hq]
  · rfl

end Argument

/-! ### Characters -/

namespace Operation

variable {cs ds : List Char} {i j k l : Nat}

theorem slice_ok (hij : i ≤ j) (hj : j ≤ cs.length) :
    slice cs i j = .ok ((cs.drop i).take (j - i)) := by
  rw [slice, if_neg (by omega), if_neg (by omega)]

theorem slice_start_error (hi : cs.length < i) : slice cs i j = .error (.startOutOfRange i) :=
  if_pos hi

theorem slice_end_error (hi : i ≤ cs.length) (hj : ¬(i ≤ j ∧ j ≤ cs.length)) :
    slice cs i j = .error (.endOutOfRange j) := by
  rw [slice, if_neg (by omega), if_pos (by omega)]

theorem slice_ok_iff :
    slice cs i j = .ok ds ↔ (i ≤ j ∧ j ≤ cs.length) ∧ (cs.drop i).take (j - i) = ds := by
  by_cases h : i ≤ j ∧ j ≤ cs.length
  · simp [slice_ok h.1 h.2, h]
  · by_cases hi : i ≤ cs.length
    · simp [slice_end_error hi h, h]
    · simp [slice_start_error (Nat.lt_of_not_le hi), h]

theorem slice_length (h : slice cs i j = .ok ds) : ds.length = j - i := by
  obtain ⟨⟨hij, hj⟩, rfl⟩ := slice_ok_iff.mp h
  rw [List.length_take, List.length_drop]
  omega

theorem slice_slice (h : slice cs i j = .ok ds) (hkl : k ≤ l) (hl : l ≤ j - i) :
    slice ds k l = slice cs (i + k) (i + l) := by
  have hlength := slice_length h
  obtain ⟨⟨hij, hj⟩, rfl⟩ := slice_ok_iff.mp h
  rw [slice_ok hkl (by omega), slice_ok (by omega) (by omega), List.drop_take, List.take_take,
    List.drop_drop]
  congr 2
  omega

theorem slices_at (hi : i ≤ cs.length) :
    slice cs 0 i = .ok (cs.take i) ∧ slice cs i cs.length = .ok (cs.drop i) := by
  rw [slice_ok (Nat.zero_le i) hi, slice_ok hi (Nat.le_refl _), ← List.length_drop,
    List.take_length]
  exact ⟨rfl, rfl⟩

end Operation

/-! ### Answers -/

namespace Primitive

open Argument Operation

variable {s : String} {v : Value} {i j : Nat}

/-- The answer of `substring` when the characters are those of the given slice. -/
def sliceAnswer (slice : Except Fault (List Char)) : Except String Value :=
  ((fun cs => .string (String.ofList cs)) <$> slice).mapError (·.message substring.name)

theorem sliceAnswer_ok_iff {slice : Except Fault (List Char)} :
    sliceAnswer slice = .ok v ↔ ∃ cs, slice = .ok cs ∧ v = .string (String.ofList cs) := by
  rw [sliceAnswer, mapError_ok, map_ok]
  simp only [eq_comm]

theorem answer_substring (text start : Value) (others : List Value) :
    substring.answer (text :: start :: others) =
      (Operation.substring text start others).mapError (·.message substring.name) := rfl

theorem answer_slice (hi : i < indexLimit) (hj : j < indexLimit) :
    substring.answer [.string s, index i, index j] = sliceAnswer (slice s.toList i j) := by
  simp only [answer_substring, Operation.substring, Argument.string, natural_index hi,
    natural_index hj]
  rfl

theorem answer_slice_end (hi : i < indexLimit) :
    substring.answer [.string s, index i] = sliceAnswer (slice s.toList i s.length) := by
  simp only [answer_substring, Operation.substring, Argument.string, natural_index hi]
  rw [← String.length_toList]
  rfl

theorem answer_stringLength (s : String) :
    stringLength.answer [.string s] = .ok (index s.length) := rfl

theorem answer_stringAppend (s t : String) :
    stringAppend.answer [.string s, .string t] = .ok (.string (s ++ t)) := by
  show Except.ok (Value.string ("" ++ s ++ t)) = _
  rw [String.empty_append]

/-! ### Laws -/

theorem answer_slice_ok_iff (hi : i < indexLimit) (hj : j < indexLimit) :
    (∃ v, substring.answer [.string s, index i, index j] = .ok v) ↔ i ≤ j ∧ j ≤ s.length := by
  rw [answer_slice hi hj]
  simp only [sliceAnswer_ok_iff, slice_ok_iff, String.length_toList]
  constructor
  · rintro ⟨_, _, ⟨h, -⟩, -⟩
    exact h
  · intro h
    exact ⟨_, _, ⟨h, rfl⟩, rfl⟩

/-- What a slice and the slices of it are. -/
theorem answer_slice_laws (hi : i < indexLimit) (hj : j < indexLimit)
    (h : substring.answer [.string s, index i, index j] = .ok v) :
    stringLength.answer [v] = .ok (index (j - i)) ∧
    ∀ k l, k ≤ l → l ≤ j - i →
      substring.answer [v, index k, index l] =
        substring.answer [.string s, index (i + k), index (i + l)] := by
  rw [answer_slice hi hj, sliceAnswer_ok_iff] at h
  obtain ⟨cs, hcs, rfl⟩ := h
  constructor
  · rw [answer_stringLength, String.length_ofList, slice_length hcs]
  · intro k l hkl hl
    obtain ⟨⟨hij, -⟩, -⟩ := slice_ok_iff.mp hcs
    rw [answer_slice (by omega) (by omega), answer_slice (by omega) (by omega),
      String.toList_ofList, slice_slice hcs hkl hl]

theorem answer_slices_append (hi : i < indexLimit) (h : i ≤ s.length) :
    ∃ v w, substring.answer [.string s, index 0, index i] = .ok v ∧
      substring.answer [.string s, index i] = .ok w ∧
      stringAppend.answer [v, w] = .ok (.string s) := by
  rw [← String.length_toList] at h
  obtain ⟨hbefore, hbehind⟩ := slices_at h
  refine ⟨.string (String.ofList (s.toList.take i)), .string (String.ofList (s.toList.drop i)),
    ?_, ?_, ?_⟩
  · rw [answer_slice (by decide) hi, hbefore]
    rfl
  · rw [answer_slice_end hi, ← String.length_toList, hbehind]
    rfl
  · rw [answer_stringAppend, ← String.ofList_append, List.take_append_drop, String.ofList_toList]

/-! ### Errors -/

theorem answer_start_out_of_range (hi : i < indexLimit) (hj : j < indexLimit)
    (h : s.length < i) :
    substring.answer [.string s, index i, index j] =
      .error ("substring: starting index is out of range: " ++ toString i) := by
  rw [answer_slice hi hj, slice_start_error h]
  rfl

theorem answer_end_out_of_range (hi : i < indexLimit) (hj : j < indexLimit) (h : i ≤ s.length)
    (hij : ¬(i ≤ j ∧ j ≤ s.length)) :
    substring.answer [.string s, index i, index j] =
      .error ("substring: ending index is out of range: " ++ toString j) := by
  rw [← String.length_toList] at h hij
  rw [answer_slice hi hj, slice_end_error h hij]
  rfl

theorem answer_start_not_natural (hv : ¬IsIndex v) (stop : Option Value) :
    substring.answer (.string s :: v :: stop.toList) =
      .error ("substring: expects a natural number, given " ++ v.text) := by
  cases stop <;>
    simp only [Option.toList, answer_substring, Operation.substring, Argument.string,
      natural_of_not_isIndex hv] <;> rfl

theorem answer_end_not_natural (hi : i < indexLimit) (hv : ¬IsIndex v) :
    substring.answer [.string s, index i, v] =
      .error ("substring: expects a natural number, given " ++ v.text) := by
  simp only [answer_substring, Operation.substring, Argument.string, natural_index hi,
    natural_of_not_isIndex hv]
  rfl

/-- Slices of a string by its length, by slices of them and by the whole that they make up, and the
error that is reported where there is no slice. -/
theorem slices_coherent (s : String) :
    stringLength.answer [.string s] = .ok (index s.length) ∧
    (∀ i < indexLimit, ∀ j < indexLimit,
      ((∃ v, substring.answer [.string s, index i, index j] = .ok v) ↔ i ≤ j ∧ j ≤ s.length) ∧
      (∀ v, substring.answer [.string s, index i, index j] = .ok v →
        stringLength.answer [v] = .ok (index (j - i)) ∧
        ∀ k l, k ≤ l → l ≤ j - i →
          substring.answer [v, index k, index l] =
            substring.answer [.string s, index (i + k), index (i + l)]) ∧
      (s.length < i → substring.answer [.string s, index i, index j] =
        .error ("substring: starting index is out of range: " ++ toString i)) ∧
      (i ≤ s.length → ¬(i ≤ j ∧ j ≤ s.length) →
        substring.answer [.string s, index i, index j] =
          .error ("substring: ending index is out of range: " ++ toString j))) ∧
    (∀ i < indexLimit, i ≤ s.length → ∃ v w,
      substring.answer [.string s, index 0, index i] = .ok v ∧
      substring.answer [.string s, index i] = .ok w ∧
      stringAppend.answer [v, w] = .ok (.string s)) ∧
    ∀ v, ¬IsIndex v →
      (∀ stop : Option Value, substring.answer (.string s :: v :: stop.toList) =
        .error ("substring: expects a natural number, given " ++ v.text)) ∧
      ∀ i < indexLimit, substring.answer [.string s, index i, v] =
        .error ("substring: expects a natural number, given " ++ v.text) := by
  refine ⟨answer_stringLength s, fun i hi j hj => ⟨?_, ?_, ?_, ?_⟩, fun i => ?_,
    fun v hv => ⟨?_, fun i hi => ?_⟩⟩
  · exact answer_slice_ok_iff hi hj
  · exact fun v => answer_slice_laws hi hj
  · exact answer_start_out_of_range hi hj
  · exact answer_end_out_of_range hi hj
  · exact answer_slices_append
  · exact answer_start_not_natural hv
  · exact answer_end_not_natural hi hv

/-- Slices of a string with characters of several bytes. -/
theorem slices_coherent_bytes :
    let s := "aλ😀b"
    (∃ v, substring.answer [.string s, index 1, index 3] = .ok v ∧
      stringLength.answer [v] = .ok (index 2) ∧
      substring.answer [v, index 1, index 2] = substring.answer [.string s, index 2, index 3]) ∧
    substring.answer [.string s, index 5, index 2] =
      .error "substring: starting index is out of range: 5" ∧
    substring.answer [.string s, index 3, index 2] =
      .error "substring: ending index is out of range: 2" ∧
    (∃ v w, substring.answer [.string s, index 0, index 2] = .ok v ∧
      substring.answer [.string s, index 2] = .ok w ∧
      stringAppend.answer [v, w] = .ok (.string s)) ∧
    substring.answer [.string s, index 5, .empty] =
      .error "substring: expects a natural number, given '()" := by
  intro s
  obtain ⟨-, hslices, happend, hrejects⟩ := slices_coherent s
  obtain ⟨hsome, hlaws, -, -⟩ := hslices 1 (by decide) 3 (by decide)
  obtain ⟨v, hv⟩ := hsome.mpr (by decide)
  obtain ⟨hlength, hpart⟩ := hlaws v hv
  obtain ⟨-, -, hstart, -⟩ := hslices 5 (by decide) 2 (by decide)
  obtain ⟨-, -, -, hend⟩ := hslices 3 (by decide) 2 (by decide)
  have hempty : ¬IsIndex .empty := by
    rintro ⟨n, -, hn⟩
    cases hn
  refine ⟨⟨v, hv, hlength, hpart 1 2 (by decide) (by decide)⟩, ?_, ?_,
    happend 2 (by decide) (by decide), ?_⟩
  · exact hstart (by decide)
  · exact hend (by decide) (by decide)
  · exact (hrejects .empty hempty).2 5 (by decide)

end Primitive
end BeginningStudent
