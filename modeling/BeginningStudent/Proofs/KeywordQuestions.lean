import BeginningStudent.Proofs.Places
import BeginningStudent.Proofs.WellPlaced

/-!
# Keywords as questions

A well-placed form has one kind of place where resolution meets a keyword that heads no group for
resolution: the question of a `cond` clause. So resolution of such a form ends in an internal error
exactly when it comes to a clause with a keyword for a question (`Place.internal_iff`).
-/

namespace BeginningStudent

namespace Place

/-- The clauses of a `cond` are fine up to one whose question is the keyword `k`. -/
structure AtKeywordQuestion (p : Place) (k : Keyword) : Prop where
  ne_else : k ≠ .elseClause
  clause : ∃ before answer after cs,
    p.form = .group (.keyword .cond :: (before ++ .group [.keyword k, answer] :: after)) ∧
      Form.resolveClauses p.table p.site 0 before = .ok (cs, none)

/-- Resolution of the first place comes to the second: all parts before it have expressions. -/
inductive Reaches : Place → Place → Prop
  | here {p} : Reaches p p
  | part {p q r before after} (hp : p.parts = before ++ q :: after)
    (hbefore : ∀ b ∈ before, ∃ e, b.result = .ok e) (hq : Reaches q r) : Reaches p r

end Place

namespace Form

variable {t : SymbolTable} {site : Option Site}

/-! ### Clauses with a keyword for a question -/

theorem resolveClauses_append {before : List Form} {cs : List (Expr × Expr)} {i : Nat}
    (h : resolveClauses t site i before = .ok (cs, none)) (after : List Form) :
    resolveClauses t site i (before ++ after) =
      (fun r => (cs ++ r.1, r.2)) <$> resolveClauses t site (i + before.length) after := by
  induction before generalizing cs i with
  | nil =>
    rw [resolveClauses] at h
    cases h
    simp
  | cons clause before ih =>
    match clause with
    | .group [question, answer] =>
      by_cases hq : question = .keyword .elseClause
      · subst hq
        rw [resolveClauses] at h
        split at h
        · obtain ⟨a, -, h⟩ := bind_ok.mp h
          cases h
        · cases h
      · rw [resolveClauses_question hq] at h
        obtain ⟨q, hqe, h⟩ := bind_ok.mp h
        obtain ⟨a, hae, h⟩ := bind_ok.mp h
        obtain ⟨⟨cs', otherwise⟩, hcs, h⟩ := bind_ok.mp h
        cases h
        rw [List.cons_append, resolveClauses_question hq, hqe, hae, ih hcs]
        simp only [List.length_cons, bind, Except.bind, Functor.map]
        rw [show i + (before.length + 1) = i + 1 + before.length by omega]
        cases resolveClauses t site (i + 1 + before.length) after <;> rfl
    | .group [] | .group [_] | .group (_ :: _ :: _ :: _) | .name _ | .keyword _ | .number _
    | .string _ | .boolean _ =>
      rw [resolveClauses] at h
      · cases h
      all_goals simp

theorem resolveClauses_keyword {k : Keyword} (hk : k ≠ .elseClause) (i : Nat) (answer : Form)
    (after : List Form) :
    resolveClauses t site i (.group [.keyword k, answer] :: after) =
      .error (.keywordOutsideHead k) := by
  rw [resolveClauses_question (by simpa using hk), resolve]
  rfl

end Form

theorem Place.AtKeywordQuestion.result {p : Place} {k : Keyword} (h : p.AtKeywordQuestion k) :
    p.result = .error (.keywordOutsideHead k) := by
  obtain ⟨hk, before, answer, after, cs, hform, hbefore⟩ := h
  rw [Place.result, hform, Form.resolve, Form.resolveSpecial_cond (by simp),
    Form.resolveClauses_append hbefore, Form.resolveClauses_keyword hk]
  rfl

/-! ### Parts of well-placed forms -/

namespace Form

variable {t : SymbolTable} {site : Option Site} {q : Place}

theorem mem_places {i : Nat} {fs : List Form} (h : q ∈ places t site i fs) : q.form ∈ fs := by
  induction fs generalizing i with
  | nil => simp [places] at h
  | cons f fs ih =>
    rcases List.mem_cons.mp h with rfl | h
    · exact List.mem_cons_self
    · exact List.mem_cons_of_mem _ (ih h)

theorem mem_specialPlaces {k : Keyword} {parts : List Form} (hk : k ≠ .cond)
    (h : q ∈ specialPlaces t site k parts) : q.form ∈ parts := by
  cases k with
  | cond => exact absurd rfl hk
  | lambda =>
    cases site with
    | none => simp [specialPlaces] at h
    | some s =>
      cases hl : lambdaParts parts with
      | error e => simp [specialPlaces, hl] at h
      | ok p =>
        obtain ⟨params, body⟩ := p
        obtain rfl : q = ⟨t.pushParams params, some (s.part 0), body⟩ := by
          simpa [specialPlaces, hl] using h
        exact mem_of_lambdaParts hl
  | ifElse | conjunction | disjunction =>
    rw [specialPlaces] at h
    split at h
    · exact mem_places h
    · simp at h
  | _ => simp [specialPlaces] at h

theorem mem_clausePlaces {i : Nat} {clauses : List Form} (h : q ∈ clausePlaces t site i clauses) :
    ∃ items, .group items ∈ clauses ∧ q.form ∈ items := by
  fun_induction clausePlaces t site i clauses with
  | case1 | case3 | case5 => simp at h
  | case2 i answer rest hrest =>
    obtain rfl := List.mem_singleton.mp h
    exact ⟨_, List.mem_cons_self, by simp⟩
  | case4 i question answer rest hq ih =>
    rcases List.mem_cons.mp h with rfl | h
    · exact ⟨_, List.mem_cons_self, by simp⟩
    rcases List.mem_cons.mp h with rfl | h
    · exact ⟨_, List.mem_cons_self, by simp⟩
    obtain ⟨items, hitems, hq⟩ := ih h
    exact ⟨items, List.mem_cons_of_mem _ hitems, hq⟩

theorem wellPlaced_clause {question answer : Form}
    (h : (group [question, answer]).wellPlaced = true) :
    (question.wellPlaced = true ∨ ∃ k, question = .keyword k) ∧ answer.wellPlaced = true := by
  obtain ⟨hq, ha⟩ := wellPlaced_group.mp h
  exact ⟨hq, ha answer List.mem_cons_self⟩

theorem clausePlaces_wellPlaced {i : Nat} {clauses : List Form} {before after : List Place}
    (hclauses : ∀ c ∈ clauses, c.wellPlaced = true)
    (h : clausePlaces t site i clauses = before ++ q :: after)
    (hbefore : ∀ b ∈ before, ∃ e, b.result = .ok e) :
    q.form.wellPlaced = true ∨ ∃ k first answer rest cs, k ≠ .elseClause ∧ q.form = .keyword k ∧
      clauses = first ++ .group [.keyword k, answer] :: rest ∧
      resolveClauses t site i first = .ok (cs, none) := by
  match clauses with
  | [] => simp [clausePlaces] at h
  | .group [question, answer] :: rest =>
    obtain ⟨hclause, hrest⟩ := List.forall_mem_cons.mp hclauses
    obtain ⟨hquestion, hanswer⟩ := wellPlaced_clause hclause
    by_cases hq : question = .keyword .elseClause
    · subst hq
      rw [clausePlaces] at h
      split at h
      · obtain ⟨-, rfl, -⟩ := by simpa [List.singleton_eq_append_iff] using h
        exact .inl hanswer
      · simp at h
    rw [clausePlaces_question hq] at h
    rcases before with _ | ⟨_, _ | ⟨_, before⟩⟩
    · cases h
      rcases hquestion with hw | ⟨k, rfl⟩
      · exact .inl hw
      · exact .inr ⟨k, [], answer, rest, [], by simpa using hq, rfl, rfl, by rw [resolveClauses]⟩
    · cases h
      exact .inl hanswer
    · simp only [List.cons_append, List.cons.injEq] at h
      obtain ⟨rfl, rfl, h⟩ := h
      obtain ⟨⟨qe, hqe⟩, hbefore⟩ := List.forall_mem_cons.mp hbefore
      obtain ⟨⟨ae, hae⟩, hbefore⟩ := List.forall_mem_cons.mp hbefore
      rcases clausePlaces_wellPlaced hrest h hbefore with
        hw | ⟨k, first, answer', rest', cs, hk, hform, rfl, hfirst⟩
      · exact .inl hw
      · refine .inr ⟨k, _ :: first, answer', rest', (qe, ae) :: cs, hk, hform, rfl, ?_⟩
        have hquestion : resolve t (partSite site (2 * i)) question = .ok qe := hqe
        have hanswer : resolve t (partSite site (2 * i + 1)) answer = .ok ae := hae
        rw [resolveClauses_question hq, hquestion, hanswer, hfirst]
        rfl
  | .group [] :: _ | .group [_] :: _ | .group (_ :: _ :: _ :: _) :: _ | .name _ :: _
  | .keyword _ :: _ | .number _ :: _ | .string _ :: _ | .boolean _ :: _ =>
    rw [clausePlaces] at h
    · simp at h
    all_goals simp

end Form

namespace Place

variable {p q : Place}

theorem mem_parts (h : q ∈ p.parts) : ∃ head items, p.form = .group (head :: items) ∧
    (q.form ∈ items ∨
      head = .keyword .cond ∧ p.parts = Form.clausePlaces p.table p.site 0 items) := by
  obtain ⟨t, site, f⟩ := p
  match f with
  | .number _ | .string _ | .boolean _ | .name _ | .keyword _ | .group [] | .group (.group _ :: _)
  | .group (.number _ :: _) | .group (.string _ :: _) | .group (.boolean _ :: _) =>
    simp [parts] at h
  | .group (.name s :: arguments) =>
    refine ⟨_, _, rfl, .inl ?_⟩
    rw [parts] at h
    dsimp only at h
    split at h
    · exact Form.mem_places h
    · simp at h
  | .group (.keyword k :: items) =>
    refine ⟨_, _, rfl, ?_⟩
    by_cases hk : k = .cond
    · subst hk
      exact .inr ⟨rfl, rfl⟩
    · exact .inl (Form.mem_specialPlaces hk h)

theorem parts_wellPlaced {before after : List Place} (hp : p.form.wellPlaced = true)
    (h : p.parts = before ++ q :: after) (hbefore : ∀ b ∈ before, ∃ e, b.result = .ok e) :
    q.form.wellPlaced = true ∨ ∃ k, q.form = .keyword k ∧ p.AtKeywordQuestion k := by
  have hq : q ∈ p.parts := h ▸ List.mem_append_right _ List.mem_cons_self
  obtain ⟨head, items, hform, hitems⟩ := mem_parts hq
  rw [hform] at hp
  obtain ⟨-, hwell⟩ := Form.wellPlaced_group.mp hp
  rcases hitems with hmem | ⟨rfl, hparts⟩
  · exact .inl (hwell _ hmem)
  rw [hparts] at h
  rcases Form.clausePlaces_wellPlaced hwell h hbefore with
    hw | ⟨k, first, answer, rest, cs, hk, hkeyword, rfl, hfirst⟩
  · exact .inl hw
  · exact .inr ⟨k, hkeyword, hk, first, answer, rest, cs, hform, hfirst⟩

theorem sizeOf_of_mem_parts (h : q ∈ p.parts) : sizeOf q.form < sizeOf p.form := by
  obtain ⟨head, items, hform, hitems⟩ := mem_parts h
  have hgroup : sizeOf p.form = 1 + (1 + sizeOf head + sizeOf items) := by
    simp only [hform, Form.group.sizeOf_spec, List.cons.sizeOf_spec]
  rcases hitems with hmem | ⟨-, hparts⟩
  · have hsize := List.sizeOf_lt_of_mem hmem
    omega
  · rw [hparts] at h
    obtain ⟨clause, hclause, hmem⟩ := Form.mem_clausePlaces h
    have hsize := List.sizeOf_lt_of_mem hmem
    have hsize' := List.sizeOf_lt_of_mem hclause
    simp only [Form.group.sizeOf_spec] at hsize'
    omega

theorem Reaches.result (h : p.Reaches q) {e : ResolveError} (he : e.isInternal = true)
    (hq : q.result = .error e) : p.result = .error e := by
  induction h with
  | here => exact hq
  | @part p q r before after hparts hbefore _ ih =>
    have hp : ∀ k, p.form ≠ .keyword k := by
      intro k hk
      simp [parts, hk] at hparts
    exact ((result_visits hp).internal_iff he).mpr ⟨before, q, after, hparts, hbefore, ih hq⟩

theorem reaches_of_internal {p : Place} (hp : p.form.wellPlaced = true) {e : ResolveError}
    (he : e.isInternal = true) (h : p.result = .error e) :
    ∃ q k, p.Reaches q ∧ q.AtKeywordQuestion k ∧ e = .keywordOutsideHead k := by
  have hkeyword : ∀ k, p.form ≠ .keyword k := by
    intro k hk
    simp [hk, Form.wellPlaced] at hp
  obtain ⟨before, q, after, hparts, hbefore, hq⟩ := ((result_visits hkeyword).internal_iff he).mp h
  -- The recursion follows the first part that fails.
  have hsize : sizeOf q.form < sizeOf p.form := sizeOf_of_mem_parts (by simp [hparts])
  rcases parts_wellPlaced hp hparts hbefore with hw | ⟨k, hform, hquestion⟩
  · obtain ⟨r, k, hr, hquestion, hk⟩ := reaches_of_internal hw he hq
    exact ⟨r, k, .part hparts hbefore hr, hquestion, hk⟩
  · rw [Place.result, hform, Form.resolve] at hq
    cases hq
    exact ⟨p, k, .here, hquestion, rfl⟩
termination_by sizeOf p.form

/-- Resolution of a well-placed form ends in a fault exactly when it comes to a clause with a
keyword for a question. -/
theorem internal_iff (hp : p.form.wellPlaced = true) {e : ResolveError} :
    p.result = .error e ∧ e.isInternal = true ↔
      ∃ q k, p.Reaches q ∧ q.AtKeywordQuestion k ∧ e = .keywordOutsideHead k := by
  constructor
  · rintro ⟨h, he⟩
    exact reaches_of_internal hp he h
  · rintro ⟨q, k, hq, hquestion, rfl⟩
    exact ⟨hq.result rfl hquestion.result, rfl⟩

end Place

end BeginningStudent
