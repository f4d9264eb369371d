import BeginningStudent.Proofs.Recovery

/-!
# Closed programs

Resolution leaves no loose ends. In a resolved program every name is bound where it stands: by a
lambda expression around it, by the language or by a form further up. Definitions stand at the top
level only, and lambda expressions in functions only (`Resolver.program_closed`).
-/

namespace BeginningStudent

namespace Expr

/-! ### What stands in an expression -/

/-- The expression `d` stands in another one, inside of lambda expressions with the parameters `ps`,
the innermost first. -/
inductive Occurs (d : Expr) : List String → Expr → Prop
  | here : Occurs d [] d
  | define {ps s e} (h : Occurs d ps e) : Occurs d ps (.define s e)
  | lambda {ps site name params body} (h : Occurs d ps body) :
    Occurs d (ps ++ params.reverse) (.lambda site name params body)
  | callee {ps callee arguments} (h : Occurs d ps callee) : Occurs d ps (.call callee arguments)
  | argument {ps callee arguments e} (he : e ∈ arguments) (h : Occurs d ps e) :
    Occurs d ps (.call callee arguments)
  | question {ps form question answer otherwise} (h : Occurs d ps question) :
    Occurs d ps (.branch form question answer otherwise)
  | answer {ps form question answer otherwise} (h : Occurs d ps answer) :
    Occurs d ps (.branch form question answer otherwise)
  | otherwise {ps form question answer e} (h : Occurs d ps e) :
    Occurs d ps (.branch form question answer (some e))

def introduces : Expr → List String
  | .define s _ => [s]
  | .defineStruct s fields => (Definition.struct s fields).names
  | _ => []

def IsFunctionDefinition (e : Expr) (s : String) : Prop :=
  ∃ site name params body, e = .define s (.lambda site name params body)

/-- The lambda expression `l` is the function that the form `e` defines, or stands in its body. -/
def InFunction (e l : Expr) : Prop :=
  ∃ s, e = .define s l ∨
    ∃ site name params body ps, e = .define s (.lambda site name params body) ∧ l.Occurs ps body

/-- What is asked of an expression that stands in the form `e` of the top level. -/
def Admits (e : Expr) : Expr → Prop
  | d@(.define _ _) | d@(.defineStruct _ _) => d = e
  | d@(.lambda _ _ params _) => params ≠ [] ∧ params.Nodup ∧ e.InFunction d
  | .call callee _ => ∃ s, callee = .identifier s
  | .branch form _ _ none => form = .cond
  | _ => True

/-- All that stands in the form is in its place. -/
def WellPlaced (e : Expr) : Prop := ∀ d ps, d.Occurs ps e → e.Admits d

/-- Every name in the form is a parameter of a lambda expression around it or satisfies `P`. -/
def NamesFrom (P : String → Prop) (e : Expr) : Prop :=
  ∀ s ps, (identifier s).Occurs ps e → s ∈ ps ∨ P s

end Expr

/-- Every form of the program is well placed, and its names are parameters, names of the language,
names from the forms before it, or the name of the function that it defines. The tests are well
placed expressions, and their names are names of the language or from any of the forms. -/
structure Program.Closed (p : Program) : Prop where
  form : ∀ before e after, p.forms = before ++ e :: after →
    e.WellPlaced ∧ e.NamesFrom fun s =>
      Kind.ofBuiltin? s ≠ none ∨ s ∈ before.flatMap Expr.introduces ∨ e.IsFunctionDefinition s
  test : ∀ c ∈ p.tests, ∀ e ∈ [c.actual, c.expected],
    e.isDefinition = false ∧ e.WellPlaced ∧ ∀ s ps, (Expr.identifier s).Occurs ps e →
      Kind.ofBuiltin? s ≠ none ∨ s ∈ p.forms.flatMap Expr.introduces

/-! ### Resolved expressions -/

namespace Expr

variable {top : Scope} {qs ps : List String} {d e : Expr} {s : String}

/-- What stands in a resolved expression is resolved, unless it is the name of a function that is
called. Where the expression stands outside of functions, no lambda expression is around anything
in it. -/
theorem Resolved.part (he : e.Resolved top qs) (h : d.Occurs ps e) :
    (qs = [] → ps = []) ∧
      (d.Resolved top (ps ++ qs) ∨ ∃ s k, d = .identifier s ∧ top.kind? s = some k) := by
  induction h generalizing qs with
  | here => exact ⟨fun _ => rfl, .inl he⟩
  | define => cases he
  | lambda _ ih =>
    cases he with
    | lambda hqs _ _ hb =>
      refine ⟨fun hnil => absurd hnil hqs, ?_⟩
      rw [List.append_assoc]
      exact (ih hb).2
  | callee h =>
    cases he with
    | call _ hk _ _ =>
      cases h
      exact ⟨fun _ => rfl, .inr ⟨_, _, rfl, hk⟩⟩
  | argument hmem _ ih =>
    cases he with
    | call _ _ _ ha => exact ih (ha _ hmem)
  | question _ ih =>
    cases he with
    | branch hq _ _ _ => exact ih hq
  | answer _ ih =>
    cases he with
    | branch _ ha _ _ => exact ih ha
  | otherwise _ ih =>
    cases he with
    | branch _ _ ho _ => exact ih (ho _ rfl)

theorem Resolved.name (he : e.Resolved top qs) (h : (identifier s).Occurs ps e) :
    s ∈ ps ++ qs ∨ ∃ k, top.kind? s = some k := by
  rcases (he.part h).2 with hs | ⟨s', k, heq, hk⟩
  · cases hs with
    | parameter hs => exact .inl hs
    | global _ hk _ => exact .inr ⟨_, hk⟩
  · cases heq
    exact .inr ⟨k, hk⟩

theorem Resolved.admits {form : Expr} (he : e.Resolved top qs)
    (hlambda : qs ≠ [] → form.InFunction e) : form.Admits e := by
  cases he with
  | literal | quoted | parameter | global => trivial
  | call => exact ⟨_, rfl⟩
  | lambda hqs hne hnd _ => exact ⟨hne, hnd, hlambda hqs⟩
  | branch _ _ _ hf =>
    unfold Admits
    split
    all_goals simp_all

theorem Resolved.part_admits {form : Expr} (he : e.Resolved top qs) (h : d.Occurs ps e)
    (hlambda : ps ++ qs ≠ [] → form.InFunction d) : form.Admits d := by
  rcases (he.part h).2 with hd | ⟨s, k, rfl, -⟩
  · exact hd.admits hlambda
  · trivial

theorem Resolved.wellPlaced (he : e.Resolved top []) : e.WellPlaced := by
  intro d ps h
  apply he.part_admits h
  rw [(he.part h).1 rfl]
  exact fun hne => absurd rfl hne

theorem Resolved.isDefinition (he : e.Resolved top qs) : e.isDefinition = false := by
  cases he <;> rfl

end Expr

/-! ### Resolved forms -/

section
variable {t u : SymbolTable} {e : Expr} {es before after : List Expr}

theorem SymbolTable.bound_of_kind? {s : String} {k : Kind} (h : t.top.kind? s = some k) :
    Kind.ofBuiltin? s ≠ none ∨ s ∈ t.names := by
  rw [Scope.kind?, Option.orElse_eq_orElse, Option.orElse_eq_or, Option.or_eq_some_iff] at h
  rcases h with h | ⟨-, h⟩
  · exact .inr (mem_names.mpr ⟨k, h⟩)
  · exact .inl (by simp [h])

theorem Expr.Resolved.bound {s : String} {ps : List String} (he : e.Resolved t.top [])
    (hs : (Expr.identifier s).Occurs ps e) : Kind.ofBuiltin? s ≠ none ∨ s ∈ t.names := by
  rcases he.name hs with hmem | ⟨k, hk⟩
  · rw [(he.part hs).1 rfl] at hmem
    cases hmem
  · exact SymbolTable.bound_of_kind? hk

theorem Registers.wellPlaced (h : Registers t u e) : e.WellPlaced := by
  cases h with
  | expression he => exact he.wellPlaced
  | struct hu =>
    intro d ps hd
    cases hd
    exact rfl
  | @value s e hs he =>
    intro d ps hd
    cases hd with
    | here => exact rfl
    | define hd =>
      apply he.part_admits hd
      rw [(he.part hd).1 rfl]
      exact fun hne => absurd rfl hne
  | @function s params body hs hne hnd hb =>
    intro d ps hd
    cases hd with
    | here => exact rfl
    | define hd =>
      cases hd with
      | here => exact ⟨hne, hnd, s, .inl rfl⟩
      | lambda hd => exact hb.part_admits hd fun _ => ⟨s, .inr ⟨_, _, _, _, _, rfl, hd⟩⟩

theorem Registers.names (ht : t.AtTop) (h : Registers t u e) :
    u.names = t.names ++ e.introduces := by
  cases h with
  | value | function => exact ht.names_define
  | struct hu => exact SymbolTable.declare_ok_names ht hu
  | expression he =>
    have hnone : e.introduces = [] := by cases he <;> rfl
    rw [hnone, List.append_nil]

theorem Registers.namesFrom (ht : t.AtTop) (h : Registers t u e) :
    e.NamesFrom fun s => Kind.ofBuiltin? s ≠ none ∨ s ∈ t.names ∨ e.IsFunctionDefinition s := by
  intro s ps hs
  cases h with
  | struct hu => cases hs
  | expression he => exact .inr ((he.bound hs).imp_right .inl)
  | value _ he =>
    cases hs with
    | define hs => exact .inr ((he.bound hs).imp_right .inl)
  | @function f params body hf hne hnd hb =>
    cases hs with
    | define hs =>
      cases hs with
      | lambda hs =>
        -- The body has been resolved where the name of the function is one of the names of the top.
        refine (hb.name hs).imp_right fun hkind => ?_
        obtain ⟨k, hk⟩ := hkind
        refine (SymbolTable.bound_of_kind? hk).imp_right fun hmem => ?_
        rw [ht.names_define] at hmem
        rcases List.mem_append.mp hmem with hmem | hmem
        · exact .inl hmem
        · rw [List.mem_singleton.mp hmem]
          exact .inr ⟨_, _, _, _, rfl⟩

theorem RegistersAll.names (ht : t.AtTop) (h : RegistersAll t u es) :
    u.names = t.names ++ es.flatMap Expr.introduces := by
  induction h with
  | nil => simp
  | cons he _ ih => rw [ih (he.grows.atTop ht), he.names ht, List.flatMap_cons, List.append_assoc]

theorem RegistersAll.split (h : RegistersAll t u (before ++ es)) :
    ∃ v, RegistersAll t v before ∧ RegistersAll v u es := by
  induction before generalizing t with
  | nil => exact ⟨t, .nil, h⟩
  | cons b before ih =>
    cases h with
    | cons hb h =>
      obtain ⟨v, hbefore, hes⟩ := ih h
      exact ⟨v, .cons hb hbefore, hes⟩

end

/-! ### Programs -/

theorem SymbolTable.resolveProgram_closed {t : SymbolTable} {fs : List Form} {p : Program}
    (h : SymbolTable.empty.resolveProgram fs = (t, .ok p)) : p.Closed := by
  obtain ⟨hforms, htests⟩ := resolveProgram_ok atTop_empty h
  constructor
  · intro before e after hsplit
    rw [hsplit] at hforms
    obtain ⟨u, hbefore, hrest⟩ := hforms.split
    have hu := hbefore.grows.atTop atTop_empty
    cases hrest with
    | cons he _ =>
      have hnames := he.namesFrom hu
      rw [hbefore.names atTop_empty] at hnames
      exact ⟨he.wellPlaced, hnames⟩
  · intro c hc e he
    have hresolved : e.Resolved t.top [] := by
      rcases List.mem_pair.mp he with rfl | rfl
      · exact (htests c hc).1
      · exact (htests c hc).2
    refine ⟨hresolved.isDefinition, hresolved.wellPlaced, ?_⟩
    intro s ps hs
    have hnames := hforms.names atTop_empty
    have hbound := hresolved.bound hs
    rwa [hnames] at hbound

/-- What a fresh resolver makes of a program is closed and well placed. -/
theorem Resolver.program_closed {fs : List Form} {p : Program} {r : Resolver}
    (h : program fs start = .ok p r) : p.Closed := by
  have hrun := program_run .empty fs
  rcases hresolve : SymbolTable.empty.resolveProgram fs with ⟨t, e | q⟩
  · rw [hresolve] at hrun
    cases h.symm.trans hrun
  · rw [hresolve] at hrun
    cases h.symm.trans hrun
    exact SymbolTable.resolveProgram_closed hresolve

/-- The program `(define (f x) (cond [x (f x)]))`, tested by `(check-expect (f #true) #false)`. -/
theorem Resolver.program_closed_loop :
    let body : Form := .group [.keyword .cond,
      .group [.name "x", .group [.name "f", .name "x"]]]
    let test : Form := .group [.keyword .checkExpect, .group [.name "f", .boolean true],
      .boolean false]
    let call : Expr := .call (.identifier "f") [.identifier "x"]
    let f : Expr := .lambda ⟨"f", []⟩ (some "f") ["x"] (.branch .cond (.identifier "x") call none)
    let p : Program := ⟨[.define "f" f],
      [⟨.call (.identifier "f") [.boolean true], .boolean false⟩]⟩
    let r : Resolver := ⟨⟨[], [("f", .function (.exactly 1))]⟩, false⟩
    program [.group [.keyword .define, .group [.name "f", .name "x"], body], test] start = .ok p r ∧
      p.Closed := by
  intro body test call f p r
  let t : SymbolTable := ⟨[], [("f", .function (.exactly 1))]⟩
  have hx : (t.pushParams ["x"]).reference "x" = .ok (.identifier "x") := rfl
  have hcall : (t.pushParams ["x"]).checkCall "f" 1 = .ok () := rfl
  have htop : t.checkCall "f" 1 = .ok () := rfl
  have hbody : body.resolve (t.pushParams ["x"]) (some (Site.part ⟨"f", []⟩ 0)) =
      .ok (.branch .cond (.identifier "x") call none) := by
    rw [Form.resolve, Form.resolveSpecial_cond (by simp), Form.resolveClauses_question (by simp),
      Form.resolve, Form.resolve, Form.resolveClauses, Form.resolveAll, Form.resolve,
      Form.resolveAll, hx, List.length_singleton, hcall]
    rfl
  have hactual : (Form.group [.name "f", .boolean true]).resolve t none =
      .ok (.call (.identifier "f") [.boolean true]) := by
    rw [Form.resolve, Form.resolveAll, Form.resolve, Form.resolveAll, List.length_singleton, htop]
    rfl
  have hexpected : (Form.boolean false).resolve t none = .ok (.boolean false) := by
    rw [Form.resolve]
    rfl
  have hform : SymbolTable.empty.resolveForm
      (.group [.keyword .define, .group [.name "f", .name "x"], body]) =
        (t, .ok (.define "f" f)) := by
    change (t, (fun b => Expr.define "f" (.lambda ⟨"f", []⟩ (some "f") ["x"] b)) <$>
      body.resolve (t.pushParams ["x"]) (some (Site.part ⟨"f", []⟩ 0))) = _
    rw [hbody]
    rfl
  have htests : t.resolveTest (.group [.name "f", .boolean true], .boolean false) =
      .ok ⟨.call (.identifier "f") [.boolean true], .boolean false⟩ := by
    rw [SymbolTable.resolveTest, hactual, hexpected]
    rfl
  have hprogram : program [.group [.keyword .define, .group [.name "f", .name "x"], body], test]
      start = .ok p r := by
    rw [start, program_run, SymbolTable.resolveProgram, SymbolTable.resolveForms, hform]
    · change settle ((Program.mk [.define "f" f] ·) <$> [_].mapM t.resolveTest) _ = _
      rw [List.mapM_cons, htests]
      rfl
    · simp
  exact ⟨hprogram, program_closed hprogram⟩

end BeginningStudent
