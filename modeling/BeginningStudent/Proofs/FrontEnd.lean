import BeginningStudent.Proofs.Definitions
import BeginningStudent.Proofs.KeywordQuestions
import BeginningStudent.Proofs.Lines

/-!
# The front end

Scanning, reading and resolving a source fails with ordinary errors, unless resolution comes to a
`cond` clause whose question is a keyword other than `else`. This clause is not refused for its
shape, and its question is then resolved as an expression (`resolveSource_internal_iff`).
-/

namespace BeginningStudent

def resolveSource (source : String) : Except Error Program := do
  let forms ← readSource source
  (SymbolTable.empty.resolveProgram forms).2.mapError .resolve

/-! ### Definitions -/

namespace SymbolTable

theorem checkFresh_ordinary (t : SymbolTable) (s : String) : Ordinary (t.checkFresh s) := by
  unfold checkFresh
  split
  · trivial
  · split <;> trivial

theorem declare_ordinary (t : SymbolTable) (names : Scope) : Ordinary (t.declare names).2 := by
  induction names generalizing t with
  | nil => trivial
  | cons b names ih =>
    obtain ⟨s, k⟩ := b
    have hfresh := t.checkFresh_ordinary s
    rw [declare]
    split
    · next h =>
      rw [h] at hfresh
      exact hfresh
    · exact ih _

theorem testParts_ordinary (parts : List Form) : Ordinary (testParts parts) := by
  unfold testParts
  split <;> trivial

end SymbolTable

namespace Definition

theorem soleValue_ordinary (s : String) (fs : List Form) : Ordinary (soleValue s fs) := by
  unfold soleValue
  split <;> trivial

theorem ofValue_ordinary (s : String) (f : Form) : Ordinary (ofValue s f) := by
  unfold ofValue
  split
  · exact (Form.lambdaParts_ordinary _).bind fun _ => trivial
  · trivial

theorem ofDefine_ordinary (t : SymbolTable) (parts : List Form) : Ordinary (ofDefine t parts) := by
  unfold ofDefine
  split
  · exact (t.checkFresh_ordinary _).bind fun _ =>
      (soleValue_ordinary _ _).bind fun f => ofValue_ordinary _ f
  · exact (t.checkFresh_ordinary _).bind fun _ =>
      (Form.functionParts_ordinary _ _).bind fun _ => trivial
  · rfl
  · rfl

theorem fieldNames_ordinary (seen : List String) (fs : List Form) :
    Ordinary (fieldNames seen fs) := by
  fun_induction fieldNames seen fs with
  | case1 => trivial
  | case2 | case4 => rfl
  | case3 seen s rest hs ih => exact ih.map

theorem ofDefineStruct_ordinary (parts : List Form) : Ordinary (ofDefineStruct parts) := by
  unfold ofDefineStruct
  split
  · refine (fieldNames_ordinary _ _).bind fun fields => ?_
    split <;> trivial
  · rfl
  · rfl

def place? (t : SymbolTable) : Definition → Option Place
  | .value _ f => some ⟨t, none, f⟩
  | .function s params body =>
    some ⟨(t.define s (.function (.exactly params.length))).pushParams params,
      some (Site.part ⟨s, []⟩ 0), body⟩
  | .struct _ _ => none

variable {t : SymbolTable} {e : ResolveError}

theorem resolve_internal_iff (d : Definition) (he : e.isInternal = true) :
    (d.resolve t).2 = .error e ↔ ∃ p, d.place? t = some p ∧ p.result = .error e := by
  cases d with
  | value s f =>
    rw [resolve, place?]
    cases hf : f.resolve t none <;> simp [Place.result, hf]
  | function s params body =>
    rw [resolve, place?]
    simp only [Option.some.injEq, exists_eq_left', Place.result]
    cases body.resolve _ _ <;> simp [Functor.map, Except.map]
  | struct s fields =>
    have hd := t.declare_ordinary (structNames s fields)
    rcases hu : t.declare (structNames s fields) with ⟨u, e' | _⟩
    · rw [hu] at hd
      have hne : e' ≠ e := fun h => hd.ne_error he (congrArg _ h)
      simp [resolve, place?, hu, Except.map, hne]
    · simp [resolve, place?, hu, Except.map]

theorem ofValue_wellPlaced {s : String} {f : Form} {d : Definition} {p : Place}
    (hf : f.wellPlaced = true) (h : ofValue s f = .ok d) (hp : d.place? t = some p) :
    p.form.wellPlaced = true := by
  unfold ofValue at h
  split at h
  · next parts =>
    obtain ⟨⟨params, body⟩, hparts, h⟩ := bind_ok.mp h
    cases h
    cases hp
    exact (Form.wellPlaced_group.mp hf).2 body (Form.mem_of_lambdaParts hparts)
  · cases h
    cases hp
    exact hf

theorem mem_of_soleValue {s : String} {fs : List Form} {f : Form} (h : soleValue s fs = .ok f) :
    f ∈ fs := by
  unfold soleValue at h
  split at h <;> simp_all

theorem ofDefine_wellPlaced {parts : List Form} {d : Definition} {p : Place}
    (hparts : ∀ f ∈ parts, f.wellPlaced = true) (h : ofDefine t parts = .ok d)
    (hp : d.place? t = some p) : p.form.wellPlaced = true := by
  unfold ofDefine at h
  split at h
  · obtain ⟨_, -, h⟩ := bind_ok.mp h
    obtain ⟨f, hf, h⟩ := bind_ok.mp h
    exact ofValue_wellPlaced (hparts f (List.mem_cons_of_mem _ (mem_of_soleValue hf))) h hp
  · obtain ⟨_, -, h⟩ := bind_ok.mp h
    obtain ⟨⟨params, body⟩, hbody, h⟩ := bind_ok.mp h
    cases h
    cases hp
    obtain ⟨-, -, -, rfl⟩ := Form.functionParts_iff.mp hbody
    exact hparts body (List.mem_cons_of_mem _ (List.mem_singleton_self body))
  · cases h
  · cases h

theorem ofDefineStruct_place? {parts : List Form} {d : Definition}
    (h : ofDefineStruct parts = .ok d) : d.place? t = none := by
  unfold ofDefineStruct at h
  split at h
  · obtain ⟨fields, -, h⟩ := bind_ok.mp h
    split at h
    · cases h
      rfl
    · cases h
  · cases h
  · cases h

end Definition

/-! ### Forms of the top level -/

namespace SymbolTable

/-- The place of the expression of a form of the top level. A structure has none, and the two of a
test wait for the end of the program. -/
def place? (t : SymbolTable) : Form → Option Place
  | .group (.keyword .define :: parts) =>
    match Definition.ofDefine t parts with
    | .error _ => none
    | .ok d => d.place? t
  | .group (.keyword .defineStruct :: _) | .group (.keyword .checkExpect :: _) => none
  | f => some ⟨t, none, f⟩

variable {t u : SymbolTable} {e : ResolveError} {f : Form} {p : Place}

theorem place?_wellPlaced (hf : f.wellPlaced = true) (hp : t.place? f = some p) :
    p.form.wellPlaced = true := by
  unfold place? at hp
  split at hp
  · obtain ⟨-, hparts⟩ := Form.wellPlaced_group.mp hf
    split at hp
    · cases hp
    · exact Definition.ofDefine_wellPlaced hparts ‹_› hp
  · cases hp
  · cases hp
  · cases hp
    exact hf

/-- A fault in a form of the top level is that of its expression. -/
theorem resolveForm_internal_iff (he : e.isInternal = true) :
    (t.resolveForm f).2 = .error e ↔ ∃ p, t.place? f = some p ∧ p.result = .error e := by
  unfold resolveForm
  split
  · next parts =>
    rw [place?]
    cases hd : Definition.ofDefine t parts with
    | error e' =>
      have hne := (Definition.ofDefine_ordinary t parts).ne_error he
      rw [hd] at hne
      simpa using hne
    | ok d => exact d.resolve_internal_iff he
  · next parts =>
    rw [place?]
    cases hd : Definition.ofDefineStruct parts with
    | error e' =>
      have hne := (Definition.ofDefineStruct_ordinary parts).ne_error he
      rw [hd] at hne
      simpa using hne
    | ok d =>
      dsimp only
      rw [d.resolve_internal_iff he, Definition.ofDefineStruct_place? hd]
  · next f hdefine hstruct =>
    unfold place?
    split
    · exact absurd rfl (hdefine _)
    · exact absurd rfl (hstruct _)
    · have hne : ResolveError.misplaced .checkExpect ≠ e := by
        rintro rfl
        cases he
      simpa [Form.resolve, Form.resolveSpecial] using hne
    · simp [Place.result]

theorem resolveForms_single (he : e.isInternal = true) :
    (t.resolveForms [f]).2 = .error e ↔ ∃ p, t.place? f = some p ∧ p.result = .error e := by
  by_cases hf : ∃ parts, f = .group (.keyword .checkExpect :: parts)
  · obtain ⟨parts, rfl⟩ := hf
    rw [resolveForms, place?]
    cases htest : testParts parts with
    | error e' =>
      have hne := (testParts_ordinary parts).ne_error he
      rw [htest] at hne
      simpa using hne
    | ok test => simp [resolveForms, Except.map]
  · rw [← resolveForm_internal_iff he, resolveForms]
    · rcases t.resolveForm f with ⟨u, e' | e'⟩
      · simp
      · simp [resolveForms, Except.map]
    · intro parts h
      exact hf ⟨parts, h⟩

/-! ### Programs -/

/-- Resolution of the forms of a program comes to the place. -/
def FormsReach (t : SymbolTable) (fs : List Form) (p : Place) : Prop :=
  ∃ before f after u q, fs = before ++ f :: after ∧ t.resolveForms before = (u, .ok q) ∧
    u.place? f = some p

theorem resolveForms_internal_iff {fs : List Form} (he : e.isInternal = true) :
    (t.resolveForms fs).2 = .error e ↔ ∃ p, t.FormsReach fs p ∧ p.result = .error e := by
  induction fs generalizing t with
  | nil => simp [resolveForms, FormsReach]
  | cons f rest ih =>
    -- The first form is a program of its own, which fails or leads to the table of the rest.
    have hfirst := resolveForms_single (t := t) (f := f) he
    rw [← List.singleton_append]
    rcases h : t.resolveForms [f] with ⟨u, e' | q⟩
    · rw [resolveForms_append_error h]
      rw [h] at hfirst
      refine hfirst.trans ⟨?_, ?_⟩
      · rintro ⟨p, hp, hr⟩
        exact ⟨p, ⟨[], f, rest, t, ⟨[], []⟩, rfl, by rw [resolveForms], hp⟩, hr⟩
      · rintro ⟨p, ⟨before, g, after, u', q, hfs, hbefore, hp⟩, hr⟩
        cases before with
        | nil =>
          cases hfs
          rw [resolveForms] at hbefore
          cases hbefore
          exact ⟨p, hp, hr⟩
        | cons b before =>
          cases hfs
          rw [← List.singleton_append, resolveForms_append_error h] at hbefore
          cases hbefore
    · have hrest : ((u.resolveForms rest).2.map q.append) = .error e ↔
          (u.resolveForms rest).2 = .error e := by
        cases (u.resolveForms rest).2 <;> simp [Except.map]
      rw [resolveForms_append_ok h, hrest, ih]
      constructor
      · rintro ⟨p, ⟨before, g, after, u', q', rfl, hbefore, hp⟩, hr⟩
        refine ⟨p, ⟨f :: before, g, after, u', q.append q', rfl, ?_, hp⟩, hr⟩
        rw [← List.singleton_append, resolveForms_append_ok h, hbefore]
        rfl
      · rintro ⟨p, ⟨before, g, after, u', q', hfs, hbefore, hp⟩, hr⟩
        cases before with
        | nil =>
          cases hfs
          rw [resolveForms] at hbefore
          cases hbefore
          have hfail := hfirst.mpr ⟨p, hp, hr⟩
          rw [h] at hfail
          cases hfail
        | cons b before =>
          cases hfs
          rw [← List.singleton_append, resolveForms_append_ok h] at hbefore
          obtain ⟨rfl, hq⟩ := Prod.mk.inj hbefore
          obtain ⟨q'', hq'', -⟩ := map_ok.mp hq
          exact ⟨p, ⟨before, g, after, _, q'', rfl, Prod.ext rfl hq'', hp⟩, hr⟩

/-- Resolution of a program comes to the place: in one of its forms, or afterwards in one of its
tests. -/
inductive ProgramReaches (t : SymbolTable) (fs : List Form) : Place → Prop
  | form {place} (h : t.FormsReach fs place) : ProgramReaches t fs place
  | actual {u q before test after} (hq : t.resolveForms fs = (u, .ok q))
    (htests : q.tests = before ++ test :: after)
    (hbefore : ∀ b ∈ before, ∃ c, u.resolveTest b = .ok c) : ProgramReaches t fs ⟨u, none, test.1⟩
  | expected {u q before test after} (hq : t.resolveForms fs = (u, .ok q))
    (htests : q.tests = before ++ test :: after)
    (hbefore : ∀ b ∈ before, ∃ c, u.resolveTest b = .ok c)
    (hactual : ∃ a, test.1.resolve u none = .ok a) : ProgramReaches t fs ⟨u, none, test.2⟩

theorem resolveTest_error_iff {test : Form × Form} :
    u.resolveTest test = .error e ↔ test.1.resolve u none = .error e ∨
      (∃ a, test.1.resolve u none = .ok a) ∧ test.2.resolve u none = .error e := by
  unfold resolveTest
  cases test.1.resolve u none with
  | error e' => simp [bind, Except.bind]
  | ok a => cases test.2.resolve u none <;> simp [bind, Except.bind, pure, Except.pure]

theorem resolveProgram_internal_iff {fs : List Form} (he : e.isInternal = true) :
    (t.resolveProgram fs).2 = .error e ↔ ∃ p, t.ProgramReaches fs p ∧ p.result = .error e := by
  have hforms : (t.resolveForms fs).2 = .error e ↔ _ := resolveForms_internal_iff he
  rcases h : t.resolveForms fs with ⟨u, e' | q⟩
  · have hprogram : (t.resolveProgram fs).2 = .error e' := by simp [resolveProgram, h]
    rw [hprogram]
    rw [h] at hforms
    simp only [Except.error.injEq] at hforms ⊢
    refine hforms.trans ⟨?_, ?_⟩
    · rintro ⟨p, hp, hr⟩
      exact ⟨p, .form hp, hr⟩
    · rintro ⟨p, hp, hr⟩
      cases hp with
      | form hp => exact ⟨p, hp, hr⟩
      | actual hq | expected hq =>
        rw [h] at hq
        cases hq
  · have hprogram : (t.resolveProgram fs).2 = .error e ↔ q.tests.mapM u.resolveTest = .error e := by
      simp only [resolveProgram, h]
      cases q.tests.mapM u.resolveTest <;> simp [Functor.map, Except.map]
    rw [hprogram, mapM_error_iff]
    constructor
    · rintro ⟨before, test, after, htests, hbefore, htest⟩
      rcases resolveTest_error_iff.mp htest with hactual | ⟨hactual, hexpected⟩
      · exact ⟨_, .actual h htests hbefore, hactual⟩
      · exact ⟨_, .expected h htests hbefore hactual, hexpected⟩
    · rintro ⟨p, hp, hr⟩
      cases hp with
      | form hp =>
        have hfail := hforms.mpr ⟨p, hp, hr⟩
        rw [h] at hfail
        cases hfail
      | @actual _ _ before test after hq htests hbefore =>
        cases h.symm.trans hq
        exact ⟨before, test, after, htests, hbefore, resolveTest_error_iff.mpr (.inl hr)⟩
      | @expected _ _ before test after hq htests hbefore hactual =>
        cases h.symm.trans hq
        exact ⟨before, test, after, htests, hbefore,
          resolveTest_error_iff.mpr (.inr ⟨hactual, hr⟩)⟩

theorem testParts_wellPlaced {parts : List Form} {test : Form × Form}
    (hparts : ∀ f ∈ parts, f.wellPlaced = true) (h : testParts parts = .ok test) :
    test.1.wellPlaced = true ∧ test.2.wellPlaced = true := by
  unfold testParts at h
  split at h
  · cases h
    exact ⟨hparts _ (by simp), hparts _ (by simp)⟩
  · cases h

theorem tests_wellPlaced {fs : List Form} {q : SplitProgram}
    (hfs : ∀ f ∈ fs, f.wellPlaced = true) (h : t.resolveForms fs = (u, .ok q)) :
    ∀ test ∈ q.tests, test.1.wellPlaced = true ∧ test.2.wellPlaced = true := by
  fun_induction resolveForms t fs generalizing q with
  | case1 t =>
    cases h
    simp
  | case2 | case4 => simp at h
  | case3 t parts fs test hparts v r hr ih =>
    obtain ⟨rfl, hp⟩ := Prod.mk.inj h
    obtain ⟨q', rfl, rfl⟩ := map_ok.mp hp
    obtain ⟨hf, hrest⟩ := List.forall_mem_cons.mp hfs
    have htest := testParts_wellPlaced (Form.wellPlaced_group.mp hf).2 hparts
    exact List.forall_mem_cons.mpr ⟨htest, ih hrest hr⟩
  | case5 t f fs hf v e' hform w r hr ih =>
    obtain ⟨rfl, hp⟩ := Prod.mk.inj h
    obtain ⟨q', rfl, rfl⟩ := map_ok.mp hp
    have hrest := ih (List.forall_mem_cons.mp hfs).2 hr
    exact hrest

theorem ProgramReaches.wellPlaced {fs : List Form} (hfs : ∀ f ∈ fs, f.wellPlaced = true)
    (h : t.ProgramReaches fs p) : p.form.wellPlaced = true := by
  cases h with
  | form h =>
    obtain ⟨before, f, after, u, q, rfl, -, hp⟩ := h
    exact place?_wellPlaced (hfs f (by simp)) hp
  | actual hq htests => exact (tests_wellPlaced hfs hq _ (by simp [htests])).1
  | expected hq htests => exact (tests_wellPlaced hfs hq _ (by simp [htests])).2

end SymbolTable

/-! ### Sources -/

theorem readSource_wellPlaced {source : String} {forms : List Form}
    (h : readSource source = .ok forms) : ∀ f ∈ forms, f.wellPlaced = true := by
  obtain ⟨tokens, -, hread⟩ := readSource_ok.mp h
  exact Form.read_wellPlaced hread

/-- The front end ends in an internal error exactly when scanning and reading succeed and
resolution comes to a clause of a `cond` with two items, the first of which is a keyword other than
`else`; everything before it has been resolved. The error names this keyword. -/
theorem resolveSource_internal_iff (source : String) (e : Error) :
    resolveSource source = .error e ∧ e.kind = .internal ↔
      ∃ forms p q k, readSource source = .ok forms ∧ SymbolTable.empty.ProgramReaches forms p ∧
        p.Reaches q ∧ q.AtKeywordQuestion k ∧ e = .resolve (.keywordOutsideHead k) := by
  constructor
  · rintro ⟨h, he⟩
    rcases bind_error.mp h with hread | ⟨forms, hread, hresolve⟩
    · rcases readSource_error hread with ⟨_, rfl⟩ | ⟨_, rfl⟩ <;> cases he
    · obtain ⟨e', hprogram, rfl⟩ := mapError_error.mp hresolve
      have he' : e'.isInternal = true := by
        simpa [Error.kind] using he
      obtain ⟨p, hp, hr⟩ := (SymbolTable.resolveProgram_internal_iff he').mp hprogram
      have hw := hp.wellPlaced (readSource_wellPlaced hread)
      obtain ⟨q, k, hq, hquestion, rfl⟩ := (Place.internal_iff hw).mp ⟨hr, he'⟩
      exact ⟨forms, p, q, k, hread, hp, hq, hquestion, rfl⟩
  · rintro ⟨forms, p, q, k, hread, hp, hq, hquestion, rfl⟩
    have hr := hq.result rfl hquestion.result
    have hprogram := (SymbolTable.resolveProgram_internal_iff rfl).mpr ⟨p, hp, hr⟩
    exact ⟨bind_error.mpr (.inr ⟨forms, hread, mapError_error.mpr ⟨_, hprogram, rfl⟩⟩), rfl⟩

/-- The front end can end in an internal error: here for the question `define`. -/
theorem resolveSource_internal :
    ¬∀ source e, resolveSource source = .error e → e.kind ≠ .internal := by
  intro h
  have hresult : (match resolveSource "(cond [define 1])" with
    | .error e => e.kind == .internal
    | .ok _ => false) = true := by decide +kernel
  split at hresult
  · next e he => exact h _ e he (by simpa using hresult)
  · cases hresult

end BeginningStudent
