import BeginningStudent.Environment

/-!
# Trees of environments

An environment shares the bindings of those around it: they are not copied when it is made. So what
a name stands for is told by all steps up to now: it is the value that was inserted last for it in
the nearest environment that has one, also where this was inserted into an outer environment after
the inner one was made (`EnvironmentTree.History.lookup_nearest`).
-/

namespace BeginningStudent

def Frame.own (f : Frame) (s : String) : Option Value :=
  f.bindings.lookup s <|> if f.parent = none then Value.builtin? s else none

namespace EnvironmentTree

/-! ### Histories -/

inductive Step where
  | child (i : Nat)
  | insert (i : Nat) (s : String) (v : Value)
  | lookup (i : Nat) (s : String)

def Step.environment : Step → Nat
  | .child i | .insert i _ _ | .lookup i _ => i

def step (t : EnvironmentTree) : Step → EnvironmentTree
  | .child i => (t.child i).2
  | .insert i s v => t.insert i s v
  | .lookup _ _ => t

abbrev History := List Step

namespace History

def tree : History → EnvironmentTree
  | [] => initial
  | st :: h => (tree h).step st

def count : History → Nat
  | [] => 1
  | .child _ :: h => count h + 1
  | _ :: h => count h

/-- Every step is about an environment that was there before it. -/
def Valid : History → Prop
  | [] => True
  | st :: h => st.environment < count h ∧ Valid h

/-- The environment around another. None is around environment 0. -/
def parent? : History → Nat → Option Nat
  | [], _ => none
  | .child p :: h, i => if i = count h then some p else parent? h i
  | _ :: h, i => parent? h i

/-- The value that was inserted last for a name in an environment. Environment 0 has those of the
language from the start. -/
def newest? : History → Nat → String → Option Value
  | [], i, s => if i = 0 then Value.builtin? s else none
  | .insert j u v :: h, i, s => if j = i ∧ u = s then some v else newest? h i s
  | _ :: h, i, s => newest? h i s

/-- Environment `i` is `a` or inside of it. -/
inductive Inside (h : History) : Nat → Nat → Prop
  | self {i} : Inside h i i
  | parent {i p a} (hp : parent? h i = some p) (hpa : Inside h p a) : Inside h i a

/-- Environment `a` is `i` or around it, and none that is nearer to `i` has a value for the name. -/
structure Sees (h : History) (s : String) (i a : Nat) : Prop where
  inside : Inside h i a
  unshadowed : ∀ b, Inside h i b → Inside h b a → b ≠ a → newest? h b s = none

variable {h : History} {i a b p : Nat} {s u : String} {v w : Value}

theorem newest?_eq_none (hv : Valid h) (hi : count h ≤ i) (s : String) : newest? h i s = none := by
  induction h with
  | nil => exact if_neg (Nat.ne_of_gt hi)
  | cons st h ih =>
    obtain ⟨hst, hv⟩ := hv
    cases st with
    | child p => exact ih hv (Nat.le_of_succ_le hi)
    | lookup j u => exact ih hv hi
    | insert j u v =>
      have hne : j ≠ i := Nat.ne_of_lt (Nat.lt_of_lt_of_le hst hi)
      rw [newest?, if_neg fun hj => hne hj.1]
      exact ih hv hi

theorem parent?_lt (hv : Valid h) (hp : parent? h i = some p) : p < i := by
  induction h with
  | nil => cases hp
  | cons st h ih =>
    obtain ⟨hst, hv⟩ := hv
    cases st with
    | insert j u v => exact ih hv hp
    | lookup j u => exact ih hv hp
    | child q =>
      rw [parent?] at hp
      split at hp
      · next hi =>
        cases hp
        exact hi ▸ hst
      · exact ih hv hp

@[elab_as_elim]
theorem parent_induction {P : Nat → Prop} (hv : Valid h) (hi : i < count h)
    (hstep : ∀ i, i < count h → (∀ p, parent? h i = some p → P p) → P i) : P i := by
  induction i using Nat.strongRecOn with
  | ind i ih =>
    refine hstep i hi fun p hp => ?_
    have hlt := parent?_lt hv hp
    exact ih p hlt (Nat.lt_trans hlt hi)

theorem Inside.le (hv : Valid h) (hia : Inside h i a) : a ≤ i := by
  induction hia with
  | self => exact Nat.le_refl _
  | parent hp _ ih => exact Nat.le_trans ih (Nat.le_of_lt (parent?_lt hv hp))

theorem Inside.antisymm (hv : Valid h) (hia : Inside h i a) (hai : Inside h a i) : i = a :=
  Nat.le_antisymm (hai.le hv) (hia.le hv)

/-! ### Frames -/

/-- The frames of a tree are what the history tells. -/
structure Records (h : History) (t : EnvironmentTree) : Prop where
  size : t.frames.size = count h
  parent : ∀ i f, t.frames[i]? = some f → f.parent = parent? h i
  own : ∀ i f, t.frames[i]? = some f → ∀ s, f.own s = newest? h i s

theorem Records.child {t : EnvironmentTree} (hv : Valid h) (ht : Records h t) (i : Nat) :
    Records (.child i :: h) (t.child i).2 := by
  have hframe : ∀ j f, (t.child i).2.frames[j]? = some f →
      j = count h ∧ f = ⟨some i, []⟩ ∨ j ≠ count h ∧ t.frames[j]? = some f := by
    intro j f hf
    change (t.frames.push _)[j]? = some f at hf
    rw [Array.getElem?_push, ht.size] at hf
    split at hf
    · next hj =>
      cases hf
      exact .inl ⟨hj, rfl⟩
    · next hj => exact .inr ⟨hj, hf⟩
  constructor
  case size =>
    show (t.frames.push _).size = _
    rw [Array.size_push, ht.size]
    rfl
  case parent =>
    intro j f hf
    rw [parent?]
    rcases hframe j f hf with ⟨hj, rfl⟩ | ⟨hj, hf⟩
    · rw [if_pos hj]
    · rw [if_neg hj]
      exact ht.parent j f hf
  case own =>
    intro j f hf s
    show f.own s = newest? h j s
    rcases hframe j f hf with ⟨hj, rfl⟩ | ⟨-, hf⟩
    · rw [newest?_eq_none hv (Nat.le_of_eq hj.symm)]
      rfl
    · exact ht.own j f hf s

theorem Records.insert {t : EnvironmentTree} (ht : Records h t) (i : Nat) (s : String) (v : Value) :
    Records (.insert i s v :: h) (t.insert i s v) := by
  have hframe : ∀ j f, (t.insert i s v).frames[j]? = some f → ∃ g, t.frames[j]? = some g ∧
      f = if i = j then { g with bindings := (s, v) :: g.bindings } else g := by
    intro j f hf
    change (t.frames.modify i _)[j]? = some f at hf
    rw [Array.getElem?_modify] at hf
    split at hf
    · next hij =>
      obtain ⟨g, hg, rfl⟩ := Option.map_eq_some_iff.mp hf
      exact ⟨g, hg, (if_pos hij).symm⟩
    · next hij => exact ⟨f, hf, (if_neg hij).symm⟩
  constructor
  case size =>
    show (t.frames.modify i _).size = _
    rw [Array.size_modify, ht.size]
    rfl
  case parent =>
    intro j f hf
    obtain ⟨g, hg, rfl⟩ := hframe j f hf
    have hparent := ht.parent j g hg
    split <;> exact hparent
  case own =>
    intro j f hf u
    obtain ⟨g, hg, rfl⟩ := hframe j f hf
    have hown := ht.own j g hg u
    rw [newest?, ← hown]
    by_cases hij : i = j
    · by_cases hsu : s = u
      · simp [hij, hsu, Frame.own]
      · have hus : (u == s) = false := by simpa using Ne.symm hsu
        simp [hij, hsu, hus, Frame.own, List.lookup_cons]
    · simp [hij]

theorem records_tree (hv : Valid h) : Records h (tree h) := by
  induction h with
  | nil =>
    have hframe : ∀ (i : Nat) f, initial.frames[i]? = some f → i = 0 ∧ f = ⟨none, []⟩ := by
      intro i f hf
      cases i with
      | zero => exact ⟨rfl, (Option.some.inj hf).symm⟩
      | succ i => cases hf
    constructor
    case size => rfl
    case parent =>
      intro i f hf
      obtain ⟨rfl, rfl⟩ := hframe i f hf
      rfl
    case own =>
      intro i f hf s
      obtain ⟨rfl, rfl⟩ := hframe i f hf
      rfl
  | cons st h ih =>
    obtain ⟨-, hv⟩ := hv
    cases st with
    | child i => exact (ih hv).child hv i
    | insert i s v => exact (ih hv).insert i s v
    | lookup i s =>
      obtain ⟨hsize, hparent, hown⟩ := ih hv
      exact ⟨hsize, hparent, hown⟩

theorem lookup_tree (hv : Valid h) (hi : i < count h) (s : String) :
    (tree h).lookup i s = (newest? h i s).or ((parent? h i).bind fun p => (tree h).lookup p s) := by
  have ht := records_tree hv
  obtain ⟨f, hf⟩ : ∃ f, (tree h).frames[i]? = some f :=
    ⟨_, Array.getElem?_eq_getElem (ht.size ▸ hi)⟩
  rw [lookup, hf, ← ht.own i f hf, ← ht.parent i f hf, Frame.own]
  dsimp only
  cases hparent : f.parent with
  | none => simp
  | some p =>
    have hlt : p < i := parent?_lt hv ((ht.parent i f hf).symm.trans hparent)
    simp [hlt]

/-! ### Lookups -/

theorem sees_iff (hv : Valid h) :
    Sees h s i a ↔ i = a ∨ newest? h i s = none ∧ ∃ p, parent? h i = some p ∧ Sees h s p a := by
  constructor
  · rintro ⟨hinside, hunshadowed⟩
    by_cases hia : i = a
    · exact .inl hia
    cases hinside with
    | self => exact absurd rfl hia
    | @parent _ p _ hp hpa =>
      exact .inr ⟨hunshadowed i .self (.parent hp hpa) hia, p, hp, hpa,
        fun b hpb => hunshadowed b (.parent hp hpb)⟩
  · rintro (rfl | ⟨hnone, p, hp, hsees⟩)
    · exact ⟨.self, fun b hib hbi hne => absurd (hbi.antisymm hv hib) hne⟩
    · refine ⟨.parent hp hsees.inside, fun b hib hba hne => ?_⟩
      cases hib with
      | self => exact hnone
      | parent hp' hpb =>
        cases hp.symm.trans hp'
        exact hsees.unshadowed b hpb hba hne

/-- A lookup finds what the nearest environment with a value for the name has. -/
theorem lookup_eq_some_iff (hv : Valid h) (hi : i < count h) :
    (tree h).lookup i s = some v ↔ ∃ a, Sees h s i a ∧ newest? h a s = some v := by
  refine parent_induction hv hi fun i hi ih => ?_
  rw [lookup_tree hv hi]
  cases hown : newest? h i s with
  | some w =>
    -- Nothing around the environment is seen past its own value.
    have hself : ∀ a, Sees h s i a ↔ i = a := fun a => (sees_iff hv).trans (by simp [hown])
    simp [hself, hown]
  | none =>
    cases hparent : parent? h i with
    | none =>
      have hself : ∀ a, Sees h s i a ↔ i = a := fun a => (sees_iff hv).trans (by simp [hparent])
      simp [hself, hown]
    | some p =>
      show (tree h).lookup p s = some v ↔ _
      rw [ih p hparent]
      constructor
      · rintro ⟨a, hsees, ha⟩
        exact ⟨a, (sees_iff hv).mpr (.inr ⟨hown, p, hparent, hsees⟩), ha⟩
      · rintro ⟨a, hsees, ha⟩
        rcases (sees_iff hv).mp hsees with rfl | ⟨-, q, hq, hsees⟩
        · rw [hown] at ha
          cases ha
        · cases hparent.symm.trans hq
          exact ⟨a, hsees, ha⟩

/-- A lookup finds nothing if no environment from this one outwards has a value for the name. -/
theorem lookup_eq_none_iff (hv : Valid h) (hi : i < count h) :
    (tree h).lookup i s = none ↔ ∀ a, Inside h i a → newest? h a s = none := by
  refine parent_induction hv hi fun i hi ih => ?_
  rw [lookup_tree hv hi, Option.or_eq_none_iff]
  constructor
  · rintro ⟨hown, houter⟩ a hia
    cases hia with
    | self => exact hown
    | @parent _ p _ hp hpa =>
      rw [hp] at houter
      exact (ih p hp).mp houter a hpa
  · intro hnone
    refine ⟨hnone i .self, Option.bind_eq_none_iff.mpr fun p hp => ?_⟩
    exact (ih p hp).mpr fun a hpa => hnone a (.parent hp hpa)

/-! ### Inserts -/

theorem inside_insert : Inside (.insert b u w :: h) i a ↔ Inside h i a := by
  constructor <;> intro hia <;> induction hia with
  | self => exact .self
  | parent hp _ ih => exact .parent hp ih

/-- An insert into an environment that a name is looked up in is seen by the lookup. -/
theorem lookup_insert_of_sees (hv : Valid h) (hi : i < count h) (ha : a < count h)
    (hsees : Sees h s i a) (v : Value) : ((tree h).insert a s v).lookup i s = some v := by
  have hkept : Sees (.insert a s v :: h) s i a := by
    refine ⟨inside_insert.mpr hsees.inside, fun b hib hba hne => ?_⟩
    rw [newest?, if_neg fun hab => hne hab.1.symm]
    exact hsees.unshadowed b (inside_insert.mp hib) (inside_insert.mp hba) hne
  have hv' : Valid (.insert a s v :: h) := ⟨ha, hv⟩
  have hnewest : newest? (.insert a s v :: h) a s = some v := if_pos ⟨rfl, rfl⟩
  exact (lookup_eq_some_iff hv' hi).mpr ⟨a, hkept, hnewest⟩

/-- An insert changes what is seen in its environment, and in those inside of it that have no
nearer value for the name. -/
theorem lookup_insert_of_not_sees (hv : Valid h) (hi : i < count h) (ha : a < count h)
    (hsees : ¬(u = s ∧ Sees h s i a)) (v : Value) :
    ((tree h).insert a s v).lookup i u = (tree h).lookup i u := by
  revert hsees
  refine parent_induction hv hi fun i hi ih hsees => ?_
  have hown : newest? (.insert a s v :: h) i u = newest? h i u := by
    refine if_neg ?_
    rintro ⟨rfl, rfl⟩
    exact hsees ⟨rfl, (sees_iff hv).mpr (.inl rfl)⟩
  have hinsert : ((tree h).insert a s v).lookup i u = (newest? (.insert a s v :: h) i u).or
      ((parent? h i).bind fun p => ((tree h).insert a s v).lookup p u) :=
    lookup_tree (h := .insert a s v :: h) ⟨ha, hv⟩ hi u
  rw [hinsert, lookup_tree hv hi, hown]
  cases hnewest : newest? h i u with
  | some w => rfl
  | none =>
    cases hparent : parent? h i with
    | none => rfl
    | some p =>
      refine ih p hparent ?_
      rintro ⟨rfl, hp⟩
      exact hsees ⟨rfl, (sees_iff hv).mpr (.inr ⟨hnewest, p, hparent, hp⟩)⟩

/-! ### Maps in a tree -/

/-- A lookup gives what was inserted last for the name in the nearest environment that has a value
for it, from its own outwards, and nothing if there is none. An insert is seen wherever its
environment is the nearest one, and changes no other lookup, so none from outside of it. -/
theorem lookup_nearest (hv : Valid h) (hi : i < count h) (s : String) :
    (∀ v, (tree h).lookup i s = some v ↔ ∃ a, Sees h s i a ∧ newest? h a s = some v) ∧
    ((tree h).lookup i s = none ↔ ∀ a, Inside h i a → newest? h a s = none) ∧
    ∀ a, a < count h → ∀ v,
      (Sees h s i a → ((tree h).insert a s v).lookup i s = some v) ∧
      ∀ u, ((tree h).insert a s v).lookup i u ≠ (tree h).lookup i u → u = s ∧ Sees h s i a := by
  refine ⟨fun v => lookup_eq_some_iff hv hi, lookup_eq_none_iff hv hi, fun a ha v => ?_⟩
  refine ⟨fun hsees => lookup_insert_of_sees hv hi ha hsees v, fun u hne => ?_⟩
  by_cases hsees : u = s ∧ Sees h s i a
  · exact hsees
  · exact absurd (lookup_insert_of_not_sees hv hi ha hsees v) hne

/-- Environments 0, 1 and 2, each inside of the one before, and then an insert into environment 0. -/
def lateInsert : History :=
  [.insert 0 "x" (.boolean true), .child 1, .lookup 0 "x", .child 0]

/-- Environment 2 has the value of a late insert into environment 0, until environment 1 gets one
of its own, which environment 0 does not have. -/
theorem lookup_nearest_lateInsert :
    Valid lateInsert ∧ 2 < count lateInsert ∧ 0 < count lateInsert ∧
    (tree lateInsert).lookup 2 "x" = some (.boolean true) ∧
    ((tree lateInsert).insert 1 "x" (.boolean false)).lookup 2 "x" = some (.boolean false) ∧
    ((tree lateInsert).insert 1 "x" (.boolean false)).lookup 0 "x" = some (.boolean true) := by
  have hv : Valid lateInsert := ⟨by decide, by decide, by decide, by decide, trivial⟩
  have hi : 2 < count lateInsert := by decide
  have h0 : 0 < count lateInsert := by decide
  have hself : ∀ a, Sees lateInsert "x" a a := fun a => (sees_iff hv).mpr (.inl rfl)
  have hsees : Sees lateInsert "x" 2 1 := (sees_iff hv).mpr (.inr ⟨rfl, 1, rfl, hself 1⟩)
  have houter : Sees lateInsert "x" 2 0 :=
    (sees_iff hv).mpr (.inr ⟨rfl, 1, rfl, (sees_iff hv).mpr (.inr ⟨rfl, 0, rfl, hself 0⟩)⟩)
  obtain ⟨hsome, -, hinsert⟩ := lookup_nearest hv hi "x"
  obtain ⟨hsome0, -, hinsert0⟩ := lookup_nearest hv h0 "x"
  have hzero : (tree lateInsert).lookup 0 "x" = some (.boolean true) :=
    (hsome0 _).mpr ⟨0, hself 0, rfl⟩
  refine ⟨hv, hi, h0, (hsome _).mpr ⟨0, houter, rfl⟩,
    (hinsert 1 (by decide) (.boolean false)).1 hsees, ?_⟩
  refine Classical.byContradiction fun hne => ?_
  -- Only an environment inside of environment 1 can have changed.
  have hchanged := ((hinsert0 1 (by decide) (.boolean false)).2 "x" (hzero ▸ hne)).2.inside
  exact absurd (hchanged.le hv) (by decide)

end History
end EnvironmentTree
end BeginningStudent
