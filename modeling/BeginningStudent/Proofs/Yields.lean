import BeginningStudent.Arity

/-!
# Postconditions

`Yields P E x` says of a result `x` that its value satisfies `P` or its error satisfies `E`. A
postcondition of a computation follows from those of its steps (`Yields.bind`).
-/

namespace BeginningStudent

variable {ε ε' α β : Type}

/-- The value of the result satisfies `P`, or its error satisfies `E`. -/
def Yields (P : α → Prop) (E : ε → Prop) : Except ε α → Prop
  | .ok a => P a
  | .error e => E e

namespace Yields

variable {P Q : α → Prop} {R : β → Prop} {E F : ε → Prop} {x : Except ε α}

theorem mono (hx : Yields P E x) (hP : ∀ a, P a → Q a) (hE : ∀ e, E e → F e) : Yields Q F x := by
  cases x with
  | error e => exact hE e hx
  | ok a => exact hP a hx

theorem anyError (hx : Yields P E x) : Yields P (fun _ => True) x :=
  hx.mono (fun _ h => h) fun _ _ => trivial

theorem bind {f : α → Except ε β} (hx : Yields P E x) (hf : ∀ a, P a → Yields R E (f a)) :
    Yields R E (x >>= f) := by
  cases x with
  | error e => exact hx
  | ok a => exact hf a hx

theorem map {g : α → β} (hx : Yields P E x) (hg : ∀ a, P a → R (g a)) : Yields R E (g <$> x) := by
  cases x with
  | error e => exact hx
  | ok a => exact hg a hx

theorem mapError {g : ε → ε'} {E' : ε' → Prop} (hx : Yields P E x) (hg : ∀ e, E e → E' (g e)) :
    Yields P E' (x.mapError g) := by
  cases x with
  | error e => exact hg e hx
  | ok a => exact hx

theorem foldlM {step : α → β → Except ε α} {start : α} (bs : List β) (hstart : P start)
    (hstep : ∀ a, P a → ∀ b ∈ bs, Yields P E (step a b)) : Yields P E (bs.foldlM step start) := by
  induction bs generalizing start with
  | nil => exact hstart
  | cons b bs ih =>
    rw [List.foldlM_cons]
    refine (hstep start hstart b List.mem_cons_self).bind fun a ha => ih ha ?_
    exact fun a ha b hb => hstep a ha b (List.mem_cons_of_mem _ hb)

end Yields

/-! ### Values of computations in steps -/

theorem bind_ok {x : Except ε α} {f : α → Except ε β} {b : β} :
    x >>= f = .ok b ↔ ∃ a, x = .ok a ∧ f a = .ok b := by
  cases x with
  | error e => simp [bind, Except.bind]
  | ok a =>
    constructor
    · intro h
      exact ⟨a, rfl, h⟩
    · rintro ⟨a', h, hf⟩
      cases h
      exact hf

theorem bind_error {x : Except ε α} {f : α → Except ε β} {e : ε} :
    x >>= f = .error e ↔ x = .error e ∨ ∃ a, x = .ok a ∧ f a = .error e := by
  cases x with
  | error e' => simp [bind, Except.bind]
  | ok a => simp [bind, Except.bind]

theorem map_ok {x : Except ε α} {g : α → β} {b : β} :
    g <$> x = .ok b ↔ ∃ a, x = .ok a ∧ g a = b := by
  cases x with
  | error e => simp [Functor.map, Except.map]
  | ok a => simp [Functor.map, Except.map]

theorem map_error {x : Except ε α} {g : α → β} {e : ε} : g <$> x = .error e ↔ x = .error e := by
  cases x <;> simp [Functor.map, Except.map]

theorem mapError_ok {g : ε → ε'} {x : Except ε α} {a : α} : x.mapError g = .ok a ↔ x = .ok a := by
  cases x with
  | error e =>
    constructor
    · rintro ⟨⟩
    · rintro ⟨⟩
  | ok b =>
    constructor
    · rintro ⟨⟩
      rfl
    · rintro ⟨⟩
      rfl

theorem mapError_error {g : ε → ε'} {x : Except ε α} {e' : ε'} :
    x.mapError g = .error e' ↔ ∃ e, x = .error e ∧ g e = e' := by
  cases x with
  | error e =>
    constructor
    · rintro ⟨⟩
      exact ⟨e, rfl, rfl⟩
    · rintro ⟨_, ⟨⟩, rfl⟩
      rfl
  | ok a =>
    constructor
    · rintro ⟨⟩
    · rintro ⟨_, ⟨⟩, -⟩

theorem mem_of_mapM_ok {f : α → Except ε β} {as : List α} {bs : List β} (h : as.mapM f = .ok bs)
    {b : β} (hb : b ∈ bs) : ∃ a ∈ as, f a = .ok b := by
  induction as generalizing bs with
  | nil =>
    cases h
    simp at hb
  | cons a as ih =>
    rw [List.mapM_cons] at h
    obtain ⟨b', hb', h⟩ := bind_ok.mp h
    obtain ⟨bs', hbs', h⟩ := bind_ok.mp h
    cases h
    rcases List.mem_cons.mp hb with rfl | hb
    · exact ⟨a, List.mem_cons_self, hb'⟩
    · obtain ⟨a', ha', hfa⟩ := ih hbs' hb
      exact ⟨a', List.mem_cons_of_mem _ ha', hfa⟩

theorem mapM_error_iff {f : α → Except ε β} {as : List α} {e : ε} :
    as.mapM f = .error e ↔ ∃ before a after, as = before ++ a :: after ∧
      (∀ a' ∈ before, ∃ b, f a' = .ok b) ∧ f a = .error e := by
  induction as with
  | nil => simp [pure, Except.pure]
  | cons a as ih =>
    rw [List.mapM_cons]
    cases ha : f a with
    | error e' =>
      constructor
      · rintro ⟨⟩
        exact ⟨[], a, as, rfl, by simp, ha⟩
      · rintro ⟨before, a', after, h, hbefore, ha'⟩
        cases before with
        | nil =>
          cases h
          rw [ha] at ha'
          cases ha'
          rfl
        | cons b before =>
          cases h
          obtain ⟨y, hy⟩ := hbefore a List.mem_cons_self
          rw [ha] at hy
          cases hy
    | ok b =>
      have hbind : (do let bs ← as.mapM f; pure (b :: bs) : Except ε (List β)) = .error e ↔
          as.mapM f = .error e := by
        cases as.mapM f <;> simp [bind, Except.bind, pure, Except.pure]
      refine Iff.trans hbind (ih.trans ?_)
      constructor
      · rintro ⟨before, a', after, rfl, hbefore, ha'⟩
        exact ⟨a :: before, a', after, rfl, List.forall_mem_cons.mpr ⟨⟨b, ha⟩, hbefore⟩, ha'⟩
      · rintro ⟨before, a', after, h, hbefore, ha'⟩
        cases before with
        | nil =>
          cases h
          rw [ha] at ha'
          cases ha'
        | cons b' before =>
          cases h
          exact ⟨before, a', after, rfl, (List.forall_mem_cons.mp hbefore).2, ha'⟩

end BeginningStudent
