import BeginningStudent.Proofs.TopNames
import BeginningStudent.Resolver

/-!
# What errors leave of a resolver

The resolution of an expression leaves the resolver as it was, wherever in the expression it fails
(`Resolver.expression_run`). So a resolver computes the tables and results of
`SymbolTable.resolveProgram`, and is at the top level again after every program
(`Resolver.program_run`). What a program that fails has added to the top level is said by
`Resolver.Adds`.
-/

namespace BeginningStudent.Resolver

/-! ### Expressions -/

section
variable {α β : Type} {r r' : Resolver}

theorem settle_bind {x : Run α} {y : Except ResolveError α} {g : α → Run β}
    {h : α → Except ResolveError β} (hx : x r = settle y r') (hg : ∀ a, g a r' = settle (h a) r') :
    (x >>= g) r = settle (y >>= h) r' := by
  change EStateM.bind x g r = _
  rw [EStateM.bind, hx]
  cases y with
  | error e => rfl
  | ok a => exact hg a

theorem settle_map {x : Run α} {y : Except ResolveError α} (g : α → β) (hx : x r = settle y r') :
    (g <$> x) r = settle (g <$> y) r' := by
  change EStateM.map g x r = _
  rw [EStateM.map, hx]
  cases y <;> rfl

theorem bind_run (x : Run α) (g : α → Run β) (r : Resolver) :
    (x >>= g) r = match x r with
      | .ok a r' => g a r'
      | .error e r' => .error e r' := by
  change EStateM.bind x g r = _
  rw [EStateM.bind]
  cases x r <;> rfl

theorem left_settle (x : Except ResolveError α) (r : Resolver) : left (settle x r) = r := by
  cases x <;> rfl

end

def site? (r : Resolver) (site : Site) : Option Site := if r.inBody then some site else none

theorem partSite_site? (r : Resolver) (site : Site) (i : Nat) :
    Form.partSite (r.site? site) i = r.site? (site.part i) := by
  unfold site? Form.partSite
  cases r.inBody <;> rfl

theorem pop_pushParams (t : SymbolTable) (params : List String) :
    (t.pushParams params).pop = t := by
  rw [SymbolTable.pushParams_eq]
  rfl

/-- The scope and the mark of a body do not outlast it, also when it fails. -/
theorem inFunction_run {params : List String} {body : Run Expr} {x : Except ResolveError Expr}
    {r : Resolver} (h : body ⟨r.symbols.pushParams params, true⟩ =
      settle x ⟨r.symbols.pushParams params, true⟩) :
    inFunction params body r = settle x r := by
  rw [inFunction, h]
  cases x with
  | error e =>
    change EStateM.Result.error e ⟨(r.symbols.pushParams params).pop, r.inBody⟩ = .error e r
    rw [pop_pushParams]
  | ok e =>
    change EStateM.Result.ok e ⟨(r.symbols.pushParams params).pop, r.inBody⟩ = .ok e r
    rw [pop_pushParams]

theorem specialForm_lambda_outside {r : Resolver} (hr : r.inBody = false) (site : Site)
    (parts : List Form) :
    specialForm site .lambda parts r = settle (.error (.misplaced .lambda)) r := by
  rw [specialForm]
  change (if r.inBody then _ else throw (.misplaced .lambda) : Run Expr) r = _
  rw [hr]
  rfl

theorem specialForm_lambda {r : Resolver} (hr : r.inBody = true) (site : Site)
    (parts : List Form) :
    specialForm site .lambda parts r = (do
      let p ← settle (Form.lambdaParts parts)
      return .lambda site none p.1 (← inFunction p.1 (expression (site.part 0) p.2)) : Run Expr) r := by
  rw [specialForm]
  change (if r.inBody then _ else throw (.misplaced .lambda) : Run Expr) r = _
  rw [hr, if_pos rfl]
  refine congrFun ?_ r
  split <;> rename_i h <;> rw [h] <;> rfl

theorem condClauses_question {site : Site} {i : Nat} {question answer : Form} {rest : List Form}
    (h : question ≠ .keyword .elseClause) :
    condClauses site i (.group [question, answer] :: rest) = do
      let question ← expression (site.part (2 * i)) question
      let answer ← expression (site.part (2 * i + 1)) answer
      let (clauses, otherwise) ← condClauses site (i + 1) rest
      return ((question, answer) :: clauses, otherwise) := by
  rw [condClauses]
  exact h

mutual

theorem expression_run (r : Resolver) (site : Site) (f : Form) :
    expression site f r = settle (f.resolve r.symbols (r.site? site)) r := by
  match f with
  | .number _ | .string _ | .boolean _ | .name _ | .keyword _ | .group [] =>
    rw [expression, Form.resolve]
    rfl
  | .group (.keyword k :: parts) =>
    rw [expression, Form.resolve]
    exact specialForm_run r site k parts
  | .group (.name s :: arguments) =>
    rw [expression, Form.resolve]
    exact settle_bind rfl fun _ => settle_bind (expressions_run r site 0 arguments) fun _ => rfl
  | .group (.group _ :: _) | .group (.number _ :: _) | .group (.string _ :: _)
  | .group (.boolean _ :: _) =>
    rw [expression, Form.resolve] <;> first | rfl | simp
termination_by 2 * sizeOf f

theorem specialForm_run (r : Resolver) (site : Site) (k : Keyword) (parts : List Form) :
    specialForm site k parts r =
      settle (Form.resolveSpecial r.symbols (r.site? site) k parts) r := by
  match k with
  | .define | .defineStruct | .checkExpect | .elseClause =>
    rw [specialForm, Form.resolveSpecial]
    rfl
  | .quote => rw [specialForm, Form.resolveSpecial]
  | .lambda =>
    cases hr : r.inBody with
    | false =>
      rw [specialForm_lambda_outside hr, site?, hr, if_neg (by simp), Form.resolveSpecial]
    | true =>
      rw [site?, hr, if_pos rfl, specialForm_lambda hr]
      cases hl : Form.lambdaParts parts with
      | error e =>
        rw [Form.resolveSpecial_lambda_error hl]
        rfl
      | ok p =>
        obtain ⟨params, body⟩ := p
        have hsize := Form.sizeOf_of_lambdaParts hl
        rw [Form.resolveSpecial_lambda hl]
        have hbody := expression_run ⟨r.symbols.pushParams params, true⟩ (site.part 0) body
        exact settle_bind (inFunction_run hbody) fun _ => rfl
  | .ifElse =>
    match parts with
    | [question, answer, otherwise] =>
      rw [specialForm, Form.resolveSpecial, partSite_site?, partSite_site?, partSite_site?]
      exact settle_bind (expression_run r _ question) fun _ =>
        settle_bind (expression_run r _ answer) fun _ =>
          settle_bind (expression_run r _ otherwise) fun _ => rfl
    | [] | [_] | [_, _] | _ :: _ :: _ :: _ :: _ =>
      rw [specialForm, Form.resolveSpecial]
      · rfl
      all_goals simp
  | .cond =>
    match parts with
    | [] =>
      rw [specialForm, Form.resolveSpecial]
      rfl
    | clause :: clauses =>
      rw [Form.resolveSpecial_cond (List.cons_ne_nil _ _)]
      rw [specialForm]
      · refine settle_bind (condClauses_run r site 0 (clause :: clauses)) fun p => ?_
        obtain ⟨cs, otherwise⟩ := p
        dsimp only
        cases Expr.cond? cs otherwise <;> rfl
      · simp
  | .conjunction | .disjunction =>
    rw [specialForm, Form.resolveSpecial]
    split
    · exact settle_map _ (expressions_run r site 0 parts)
    · rfl
termination_by 2 * sizeOf parts + 1

theorem expressions_run (r : Resolver) (site : Site) (i : Nat) (fs : List Form) :
    expressions site i fs r = settle (Form.resolveAll r.symbols (r.site? site) i fs) r := by
  match fs with
  | [] =>
    rw [expressions, Form.resolveAll]
    rfl
  | f :: rest =>
    rw [expressions, Form.resolveAll, partSite_site?]
    exact settle_bind (expression_run r _ f) fun _ =>
      settle_bind (expressions_run r site (i + 1) rest) fun _ => rfl
termination_by 2 * sizeOf fs

theorem condClauses_run (r : Resolver) (site : Site) (i : Nat) (clauses : List Form) :
    condClauses site i clauses r =
      settle (Form.resolveClauses r.symbols (r.site? site) i clauses) r := by
  match clauses with
  | [] =>
    rw [condClauses, Form.resolveClauses]
    rfl
  | .group [question, answer] :: rest =>
    by_cases hq : question = .keyword .elseClause
    · subst hq
      rw [condClauses, Form.resolveClauses, partSite_site?]
      split
      · exact settle_bind (expression_run r _ answer) fun _ => rfl
      · rfl
    · rw [condClauses_question hq, Form.resolveClauses_question hq, partSite_site?, partSite_site?]
      exact settle_bind (expression_run r _ question) fun _ =>
        settle_bind (expression_run r _ answer) fun _ =>
          settle_bind (condClauses_run r site (i + 1) rest) fun _ => rfl
  | .group [] :: _ | .group [_] :: _ | .group (_ :: _ :: _ :: _) :: _ | .name _ :: _
  | .keyword _ :: _ | .number _ :: _ | .string _ :: _ | .boolean _ :: _ =>
    rw [condClauses, Form.resolveClauses]
    · rfl
    all_goals simp
termination_by 2 * sizeOf clauses

end

/-! ### Programs -/

section
variable (t : SymbolTable)

theorem expression_top (f : Form) :
    expression nowhere f ⟨t, false⟩ = settle (f.resolve t none) ⟨t, false⟩ :=
  expression_run ⟨t, false⟩ nowhere f

theorem declare_run (scope : Scope) :
    declare scope ⟨t, false⟩ = settle (t.declare scope).2 ⟨(t.declare scope).1, false⟩ := by
  induction scope generalizing t with
  | nil => rfl
  | cons b scope ih =>
    obtain ⟨s, k⟩ := b
    have hcheck : consult (·.checkFresh s) ⟨t, false⟩ = settle (t.checkFresh s) ⟨t, false⟩ := rfl
    rw [declare, SymbolTable.declare, bind_run, hcheck]
    cases t.checkFresh s with
    | error e => rfl
    | ok _ => exact ih (t.define s k)

theorem definition_run (d : Definition) :
    definition d ⟨t, false⟩ = settle (d.resolve t).2 ⟨(d.resolve t).1, false⟩ := by
  cases d with
  | value s f =>
    rw [definition, Definition.resolve, bind_run, expression_top]
    cases f.resolve t none <;> rfl
  | function s params body =>
    let u := t.define s (.function (.exactly params.length))
    have hbody := expression_run ⟨u.pushParams params, true⟩ (Site.part ⟨s, []⟩ 0) body
    exact settle_map _ (inFunction_run hbody)
  | struct s fields =>
    rw [definition, Definition.resolve, bind_run, declare_run]
    rcases t.declare (Definition.structNames s fields) with ⟨u, e | x⟩ <;> rfl

theorem form_run (f : Form) :
    form f ⟨t, false⟩ = settle (t.resolveForm f).2 ⟨(t.resolveForm f).1, false⟩ := by
  unfold SymbolTable.resolveForm
  split
  · rename_i parts
    have hparts : consult (Definition.ofDefine · parts) ⟨t, false⟩ =
      settle (Definition.ofDefine t parts) ⟨t, false⟩ := rfl
    rw [form, bind_run, hparts]
    cases Definition.ofDefine t parts with
    | error e => rfl
    | ok d => exact definition_run t d
  · rename_i parts
    rw [form, bind_run]
    cases Definition.ofDefineStruct parts with
    | error e => rfl
    | ok d => exact definition_run t d
  · next hdefine hstruct =>
    rw [form, expression_top]
    · exact hdefine
    · exact hstruct

theorem forms_run (fs : List Form) :
    forms fs ⟨t, false⟩ = settle (t.resolveForms fs).2 ⟨(t.resolveForms fs).1, false⟩ := by
  fun_induction SymbolTable.resolveForms t fs with
  | case1 t => rfl
  | case2 t parts rest e htest =>
    rw [forms, bind_run, htest]
    rfl
  | case3 t parts rest test htest u x hrest ih =>
    rw [hrest] at ih
    rw [forms, bind_run, htest]
    change (forms rest >>= _) _ = _
    rw [bind_run, ih]
    cases x <;> rfl
  | case4 t f rest hf u e hform =>
    have h := form_run t f
    rw [hform] at h
    rw [forms, bind_run, h]
    · rfl
    · exact hf
  | case5 t f rest hf u e hform v x hrest ih =>
    have h := form_run t f
    rw [hform] at h
    rw [hrest] at ih
    rw [forms, bind_run, h]
    · change (forms rest >>= _) _ = _
      rw [bind_run, ih]
      cases x <;> rfl
    · exact hf

theorem test_run (x : Form × Form) :
    test x ⟨t, false⟩ = settle (t.resolveTest x) ⟨t, false⟩ :=
  settle_bind (expression_top t x.1) fun _ => settle_bind (expression_top t x.2) fun _ => rfl

theorem tests_run (xs : List (Form × Form)) :
    xs.mapM test ⟨t, false⟩ = settle (xs.mapM t.resolveTest) ⟨t, false⟩ := by
  induction xs with
  | nil => rfl
  | cons x xs ih =>
    rw [List.mapM_cons, List.mapM_cons]
    exact settle_bind (test_run t x) fun _ => settle_bind ih fun _ => rfl

/-- Outside of bodies a resolver computes the table and the result of `resolveProgram`. -/
theorem program_run (fs : List Form) :
    program fs ⟨t, false⟩ = settle (t.resolveProgram fs).2 ⟨(t.resolveProgram fs).1, false⟩ := by
  rw [program, SymbolTable.resolveProgram, bind_run, forms_run]
  rcases t.resolveForms fs with ⟨u, e | q⟩
  · rfl
  · exact settle_map _ (tests_run u q.tests)

end

/-! ### Names that a program adds -/

/-- The names that a program adds to the top level of a resolver. -/
inductive Adds (r : Resolver) (fs : List Form) : List String → Prop
  | success {p r'} (h : program fs r = .ok p r') : Adds r fs (fs.flatMap Form.introduces)
  /-- The forms are resolved, and one of the tests fails, which come last. -/
  | test {split x e r'} (h : program fs r = .error e r') (hforms : forms fs r = .ok split r')
    (hx : x ∈ split.tests) (hfails : test x r' = .error e r') :
    Adds r fs (fs.flatMap Form.introduces)
  /-- One of the forms fails. -/
  | form {before f after split r₁ e r' added} (h : program fs r = .error e r')
    (hfs : fs = before ++ f :: after) (hbefore : forms before r = .ok split r₁)
    (hfails : forms [f] r₁ = .error e r') (hadded : SymbolTable.Leaves r₁.symbols f added) :
    Adds r fs (before.flatMap Form.introduces ++ added)

/-- What comes of a resolver with a program, whether that succeeds or fails. -/
structure Recovers (r : Resolver) (fs : List Form) : Prop where
  oneScope : (left (program fs r)).symbols.inner = []
  outside : (left (program fs r)).inBody = false
  keeps : ∀ s k, r.symbols.top.lookup s = some k →
    (left (program fs r)).symbols.top.lookup s = some k
  noBuiltin : ∀ s ∈ (left (program fs r)).symbols.names, Kind.ofBuiltin? s = none
  adds : ∃ added, (left (program fs r)).symbols.names = r.symbols.names ++ added ∧ Adds r fs added

section
variable {t u : SymbolTable} {fs : List Form}

theorem forms_ok {q : SplitProgram} (h : t.resolveForms fs = (u, .ok q)) :
    forms fs ⟨t, false⟩ = .ok q ⟨u, false⟩ := by
  rw [forms_run, h]
  rfl

theorem forms_error {e : ResolveError} (h : t.resolveForms fs = (u, .error e)) :
    forms fs ⟨t, false⟩ = .error e ⟨u, false⟩ ∧ program fs ⟨t, false⟩ = .error e ⟨u, false⟩ := by
  rw [forms_run, program_run, SymbolTable.resolveProgram, h]
  exact ⟨rfl, rfl⟩

theorem left_program (t : SymbolTable) (fs : List Form) :
    left (program fs ⟨t, false⟩) = ⟨(t.resolveProgram fs).1, false⟩ := by
  rw [program_run, left_settle]

theorem program_adds (ht : t.AtTop) (fs : List Form) :
    ∃ added, (t.resolveProgram fs).1.names = t.names ++ added ∧ Adds ⟨t, false⟩ fs added := by
  rcases hforms : t.resolveForms fs with ⟨u, e | q⟩
  · obtain ⟨before, f, after, v, q, rfl, hbefore, hf⟩ := SymbolTable.resolveForms_error hforms
    have hv := (SymbolTable.resolveForms_registers ht hbefore).grows.atTop ht
    obtain ⟨added, hnames, hleaves⟩ := SymbolTable.resolveForms_single_leaves hv hf
    refine ⟨_, ?_, .form (forms_error hforms).2 rfl (forms_ok hbefore) (forms_error hf).1 hleaves⟩
    rw [SymbolTable.resolveProgram, hforms]
    change u.names = _
    rw [hnames, SymbolTable.resolveForms_names ht hbefore, List.append_assoc]
  · have hnames := SymbolTable.resolveForms_names ht hforms
    have hprogram : t.resolveProgram fs =
        (u, (Program.mk q.forms ·) <$> q.tests.mapM u.resolveTest) := by
      rw [SymbolTable.resolveProgram, hforms]
    refine ⟨_, by rw [hprogram, hnames], ?_⟩
    have hrun := program_run t fs
    rw [hprogram] at hrun
    cases htests : q.tests.mapM u.resolveTest with
    | error e =>
      rw [htests] at hrun
      obtain ⟨before, x, after, hsplit, -, hx⟩ := mapM_error_iff.mp htests
      refine .test hrun (forms_ok hforms) (x := x) (by simp [hsplit]) ?_
      rw [test_run, hx]
      rfl
    | ok tests =>
      rw [htests] at hrun
      exact .success hrun

theorem recovers (ht : t.AtTop) (hb : t.top.NoBuiltin) (fs : List Form) :
    Recovers ⟨t, false⟩ fs := by
  have hgrow := t.resolveProgram_grows fs
  obtain ⟨added, hnames, hadds⟩ := program_adds ht fs
  refine ⟨?_, ?_, ?_, ?_, added, ?_, hadds⟩ <;> rw [left_program]
  · exact hgrow.atTop ht
  · exact fun s k hk => hgrow.lookup_top ht hk
  · intro s hs
    obtain ⟨k, hk⟩ := SymbolTable.mem_names.mp hs
    exact hgrow.noBuiltin ht hb s k hk
  · exact hnames

theorem after_grows (t : SymbolTable) (programs : List (List Form)) :
    ∃ u, after ⟨t, false⟩ programs = ⟨u, false⟩ ∧ t.Grows u := by
  induction programs generalizing t with
  | nil => exact ⟨t, rfl, .refl⟩
  | cons fs programs ih =>
    obtain ⟨u, hu, hgrow⟩ := ih (t.resolveProgram fs).1
    refine ⟨u, ?_, (t.resolveProgram_grows fs).trans hgrow⟩
    rw [← hu, ← left_program]
    rfl

/-- Whatever programs a resolver has been given before, it recovers from the next one: it is back at
the top level with all names that it had, and has added the names that belong to what was resolved. -/
theorem recovers_after (programs : List (List Form)) (fs : List Form) :
    Recovers (start.after programs) fs := by
  obtain ⟨t, ht, hgrow⟩ := after_grows .empty programs
  rw [start, ht]
  refine recovers (hgrow.atTop SymbolTable.atTop_empty) ?_ fs
  exact hgrow.noBuiltin SymbolTable.atTop_empty fun s k hk => by cases hk

end

end BeginningStudent.Resolver
