import BeginningStudent.Proofs.Resolved
import Mathlib.Data.List.Basic

/-!
# Places of resolution

Resolution of a form first resolves its parts, one after the other, and then does something of its
own with their expressions (`Place.result_visits`). What it does by itself fails with ordinary
errors only, so an internal error comes from the first part that fails (`Visits.internal_iff`).
-/

namespace BeginningStudent

/-- A form, with all that its resolution depends on. -/
structure Place where
  table : SymbolTable
  site : Option Site
  form : Form

/-- What resolution makes of the form. -/
def Place.result (p : Place) : Except ResolveError Expr := p.form.resolve p.table p.site

/-! ### Ordinary errors -/

/-- When the result is an error, it is no fault of the interpreter. -/
def Ordinary {α : Type} (x : Except ResolveError α) : Prop :=
  Yields (fun _ => True) (·.isInternal = false) x

namespace Ordinary

variable {α β : Type} {x : Except ResolveError α}

theorem bind {f : α → Except ResolveError β} (hx : Ordinary x) (hf : ∀ a, Ordinary (f a)) :
    Ordinary (x >>= f) :=
  Yields.bind hx fun a _ => hf a

theorem map {g : α → β} (hx : Ordinary x) : Ordinary (g <$> x) := Yields.map hx fun _ _ => trivial

theorem ne_error (hx : Ordinary x) {e : ResolveError} (he : e.isInternal = true) :
    x ≠ .error e := by
  rintro rfl
  rw [Ordinary, Yields, he] at hx
  cases hx

end Ordinary

namespace SymbolTable

theorem reference_ordinary (t : SymbolTable) (s : String) : Ordinary (t.reference s) := by
  unfold reference
  split <;> trivial

theorem checkCall_ordinary (t : SymbolTable) (s : String) (n : Nat) :
    Ordinary (t.checkCall s n) := by
  unfold checkCall
  split
  · rfl
  · split <;> trivial
  · split <;> trivial
  all_goals trivial

end SymbolTable

namespace Form

theorem paramNames_ordinary (form : Keyword) (seen : List String) (fs : List Form) :
    Ordinary (paramNames form seen fs) := by
  fun_induction paramNames form seen fs with
  | case1 => trivial
  | case2 | case4 => rfl
  | case3 seen s rest hs ih => exact ih.map

theorem soleBody_ordinary (form : Keyword) (fs : List Form) : Ordinary (soleBody form fs) := by
  unfold soleBody
  split <;> trivial

theorem functionParts_ordinary (params rest : List Form) :
    Ordinary (functionParts params rest) := by
  unfold functionParts
  split
  · rfl
  · exact (paramNames_ordinary _ _ _).bind fun _ => (soleBody_ordinary _ _).bind fun _ => trivial

theorem lambdaParts_ordinary (parts : List Form) : Ordinary (lambdaParts parts) := by
  unfold lambdaParts
  split
  · split
    · rfl
    · exact (paramNames_ordinary _ _ _).bind fun _ => (soleBody_ordinary _ _).bind fun _ => trivial
  · rfl

theorem quotation_ordinary (parts : List Form) : Ordinary (quotation parts) := by
  unfold quotation
  split <;> trivial

/-! ### Parts -/

/-- The places of forms, the first of which is the `i`-th part of its site. -/
def places (t : SymbolTable) (site : Option Site) (i : Nat) : List Form → List Place
  | [] => []
  | f :: fs => ⟨t, partSite site i, f⟩ :: places t site (i + 1) fs

/-- The places of the questions and answers of clauses, up to the first clause that is refused for
its shape. -/
def clausePlaces (t : SymbolTable) (site : Option Site) (i : Nat) : List Form → List Place
  | [] => []
  | .group [.keyword .elseClause, answer] :: rest =>
    if rest.isEmpty then [⟨t, partSite site (2 * i + 1), answer⟩] else []
  | .group [question, answer] :: rest =>
    ⟨t, partSite site (2 * i), question⟩ :: ⟨t, partSite site (2 * i + 1), answer⟩ ::
      clausePlaces t site (i + 1) rest
  | _ => []

/-- The places of the parts of a special form. -/
def specialPlaces (t : SymbolTable) (site : Option Site) : Keyword → List Form → List Place
  | .lambda, parts =>
    match site with
    | none => []
    | some s =>
      match lambdaParts parts with
      | .error _ => []
      | .ok (params, body) => [⟨t.pushParams params, some (s.part 0), body⟩]
  | .ifElse, parts => if parts.length = 3 then places t site 0 parts else []
  | .cond, clauses => clausePlaces t site 0 clauses
  | .conjunction, parts | .disjunction, parts =>
    if 2 ≤ parts.length then places t site 0 parts else []
  | _, _ => []

end Form

/-- The places of the parts that the form is resolved through, in order. There are none when the
form is refused before any part is looked at. -/
def Place.parts (p : Place) : List Place :=
  match p.form with
  | .group (.name s :: arguments) =>
    match p.table.checkCall s arguments.length with
    | .ok () => Form.places p.table p.site 0 arguments
    | .error _ => []
  | .group (.keyword k :: parts) => Form.specialPlaces p.table p.site k parts
  | _ => []

/-! ### Resolution part by part -/

/-- The computation takes the results of places one after the other. What else it does fails with
ordinary errors only, and its value satisfies `P`. -/
inductive Visits {α : Type} (P : α → Prop) : Except ResolveError α → List Place → Prop
  | done {x} (hx : Yields P (·.isInternal = false) x) : Visits P x []
  | next {t site form ps f} (hf : ∀ e, Visits P (f e) ps) :
    Visits P (Form.resolve t site form >>= f) (⟨t, site, form⟩ :: ps)

namespace Visits

variable {α β : Type} {P : α → Prop} {Q : β → Prop} {x : Except ResolveError α} {ps : List Place}

theorem bind {f : α → Except ResolveError β} (hx : Visits P x ps)
    (hf : ∀ a, P a → Yields Q (·.isInternal = false) (f a)) : Visits Q (x >>= f) ps := by
  induction hx with
  | done hx => exact .done (hx.bind hf)
  | next _ ih =>
    rw [bind_assoc]
    exact .next ih

theorem map {g : α → β} (hx : Visits P x ps) (hg : ∀ a, P a → Q (g a)) : Visits Q (g <$> x) ps := by
  rw [map_eq_pure_bind]
  exact hx.bind hg

/-- A fault of the computation is that of the first place that fails. -/
theorem internal_iff (hx : Visits P x ps) {e : ResolveError} (he : e.isInternal = true) :
    x = .error e ↔ ∃ before p after, ps = before ++ p :: after ∧
      (∀ b ∈ before, ∃ y, b.result = .ok y) ∧ p.result = .error e := by
  induction hx with
  | @done x hx =>
    constructor
    · rintro rfl
      rw [Yields, he] at hx
      cases hx
    · rintro ⟨before, p, after, h, -⟩
      simp at h
  | @next t site form ps f hf ih =>
    constructor
    · intro h
      cases hp : form.resolve t site with
      | error e' =>
        rw [hp] at h
        cases h
        exact ⟨[], _, ps, rfl, by simp, hp⟩
      | ok y =>
        rw [hp] at h
        obtain ⟨before, q, after, rfl, hbefore, hq⟩ := (ih y).mp h
        exact ⟨_ :: before, q, after, rfl, List.forall_mem_cons.mpr ⟨⟨y, hp⟩, hbefore⟩, hq⟩
    · rintro ⟨before, q, after, h, hbefore, hq⟩
      cases before with
      | nil =>
        cases h
        rw [show form.resolve t site = .error e from hq]
        rfl
      | cons b before =>
        cases h
        obtain ⟨⟨y, hy⟩, hbefore⟩ := List.forall_mem_cons.mp hbefore
        rw [show form.resolve t site = .ok y from hy]
        exact (ih y).mpr ⟨before, q, after, rfl, hbefore, hq⟩

end Visits

namespace Form

variable {t : SymbolTable} {site : Option Site}

theorem resolveAll_visits (i : Nat) (fs : List Form) :
    Visits (fun _ => True) (resolveAll t site i fs) (places t site i fs) := by
  induction fs generalizing i with
  | nil =>
    rw [resolveAll]
    exact .done trivial
  | cons f fs ih =>
    rw [resolveAll, places]
    refine .next fun e => ?_
    exact (ih (i + 1)).bind fun es _ => show Yields _ _ (.ok (e :: es)) from trivial

theorem clausePlaces_question {i : Nat} {question answer : Form} {rest : List Form}
    (hq : question ≠ .keyword .elseClause) :
    clausePlaces t site i (.group [question, answer] :: rest) =
      ⟨t, partSite site (2 * i), question⟩ :: ⟨t, partSite site (2 * i + 1), answer⟩ ::
        clausePlaces t site (i + 1) rest := by
  rw [clausePlaces]
  exact hq

theorem resolveClauses_visits (i : Nat) (clauses : List Form) :
    Visits (fun r => clauses ≠ [] → Expr.cond? r.1 r.2 ≠ none) (resolveClauses t site i clauses)
      (clausePlaces t site i clauses) := by
  fun_induction clausePlaces t site i clauses with
  | case1 =>
    rw [resolveClauses]
    exact .done (absurd rfl)
  | case2 i answer rest hrest =>
    rw [resolveClauses, if_pos hrest]
    refine .next fun a => .done fun _ => ?_
    simp [Expr.cond?]
  | case3 i answer rest hrest =>
    rw [resolveClauses, if_neg hrest]
    exact .done rfl
  | case4 i question answer rest hq ih =>
    rw [resolveClauses_question hq]
    refine .next fun q => .next fun a => ih.bind fun r _ _ => ?_
    simp [Expr.cond?]
  | case5 clauses i hnil helse hclause =>
    cases clauses with
    | nil => exact absurd rfl hnil
    | cons f rest =>
      cases f with
      | group parts =>
        rw [resolveClauses]
        · exact .done rfl
        · rintro answer rfl
          exact helse answer rest rfl
        · rintro question answer rfl
          exact hclause question answer rest rfl
      | _ =>
        rw [resolveClauses]
        · exact .done rfl
        all_goals simp

theorem resolveSpecial_visits (k : Keyword) (parts : List Form) :
    Visits (fun _ => True) (resolveSpecial t site k parts) (specialPlaces t site k parts) := by
  cases k with
  | define | defineStruct | checkExpect | elseClause =>
    rw [resolveSpecial]
    exact .done rfl
  | quote =>
    rw [resolveSpecial]
    exact .done (quotation_ordinary parts)
  | lambda =>
    cases site with
    | none =>
      rw [resolveSpecial]
      exact .done rfl
    | some s =>
      cases hl : lambdaParts parts with
      | error e =>
        have he : e.isInternal = false := by
          have hy := lambdaParts_ordinary parts
          rwa [hl] at hy
        simp only [resolveSpecial_lambda_error hl, specialPlaces, hl]
        exact .done he
      | ok p =>
        obtain ⟨params, body⟩ := p
        simp only [resolveSpecial_lambda hl, specialPlaces, hl]
        exact .next fun e => .done trivial
  | ifElse =>
    by_cases h : parts.length = 3
    · obtain ⟨question, answer, otherwise, rfl⟩ := List.length_eq_three.mp h
      rw [resolveSpecial]
      exact .next fun q => .next fun a => .next fun o => .done trivial
    · rw [specialPlaces, if_neg h, resolveSpecial]
      · exact .done rfl
      · rintro _ _ _ rfl
        exact h rfl
  | cond =>
    cases parts with
    | nil =>
      rw [resolveSpecial]
      exact .done rfl
    | cons clause clauses =>
      rw [resolveSpecial_cond (List.cons_ne_nil _ _), specialPlaces]
      refine (resolveClauses_visits 0 (clause :: clauses)).bind fun r hr => ?_
      obtain ⟨cs, otherwise⟩ := r
      dsimp only at hr ⊢
      split
      · trivial
      · exact absurd ‹_› (hr (List.cons_ne_nil _ _))
  | conjunction | disjunction =>
    rw [resolveSpecial, specialPlaces]
    split
    · exact (resolveAll_visits 0 parts).map fun _ _ => trivial
    · exact .done rfl

end Form

/-- Every form but a keyword is resolved part by part. -/
theorem Place.result_visits {p : Place} (hp : ∀ k, p.form ≠ .keyword k) :
    Visits (fun _ => True) p.result p.parts := by
  obtain ⟨t, site, f⟩ := p
  rw [result, parts]
  dsimp only at hp ⊢
  match f with
  | .number _ | .string _ | .boolean _ =>
    rw [Form.resolve]
    exact .done trivial
  | .name s =>
    rw [Form.resolve]
    exact .done (t.reference_ordinary s)
  | .keyword k => exact absurd rfl (hp k)
  | .group [] =>
    rw [Form.resolve]
    exact .done rfl
  | .group (.keyword k :: parts) =>
    rw [Form.resolve]
    exact Form.resolveSpecial_visits k parts
  | .group (.name s :: arguments) =>
    rw [Form.resolve]
    cases hc : t.checkCall s arguments.length with
    | error e =>
      have he : e.isInternal = false := by
        have hy := t.checkCall_ordinary s arguments.length
        rwa [hc] at hy
      simp only [hc]
      exact .done he
    | ok u =>
      simp only [hc]
      refine (Form.resolveAll_visits 0 arguments).bind fun es _ => ?_
      trivial
  | .group (.group _ :: _) | .group (.number _ :: _) | .group (.string _ :: _)
  | .group (.boolean _ :: _) =>
    rw [Form.resolve] <;> first | exact .done rfl | simp

end BeginningStudent
