import BeginningStudent.Proofs.Definitions

/-!
# The names of the top level

Which names the forms of a program add to the top level. A form that is resolved adds the names that
it introduces (`SymbolTable.resolveForms_names`). A form that fails adds nothing, the name of the
function whose body has failed, or those names of a structure that come before one that is taken
(`SymbolTable.resolveForm_leaves`).
-/

namespace BeginningStudent

namespace SymbolTable

def names (t : SymbolTable) : List String := (t.top.map Prod.fst).reverse

variable {t u : SymbolTable} {s : String} {k : Kind} {e : ResolveError}

theorem mem_names : s ∈ t.names ↔ ∃ k, t.top.lookup s = some k := by
  rw [← Option.ne_none_iff_exists', Ne, lookup_eq_none, not_not, names, List.mem_reverse]

theorem lookup_eq_none_iff (ht : t.AtTop) :
    t.lookup s = none ↔ s ∉ t.names ∧ Kind.ofBuiltin? s = none := by
  rw [names, List.mem_reverse, ← lookup_eq_none, ht.lookup, Scope.kind?]
  cases t.top.lookup s <;> simp

theorem AtTop.names_define (ht : t.AtTop) : (t.define s k).names = t.names ++ [s] := by
  rw [ht.define, names, names, List.map_cons, List.reverse_cons]

theorem Grows.names (h : t.Grows u) (ht : t.AtTop) :
    ∃ added, u.names = t.names ++ added ∧ added.Nodup ∧ ∀ s ∈ added, t.lookup s = none := by
  induction h with
  | refl => exact ⟨[], by simp, List.nodup_nil, by simp⟩
  | @define u s k h hs ih =>
    obtain ⟨added, hnames, hnodup, hfresh⟩ := ih
    rw [lookup_eq_none_iff (h.atTop ht), hnames, List.mem_append, not_or] at hs
    refine ⟨added ++ [s], ?_, ?_, ?_⟩
    · rw [(h.atTop ht).names_define, hnames, List.append_assoc]
    · refine List.nodup_append.mpr ⟨hnodup, by simp, fun s' hs' b hb => ?_⟩
      rw [List.mem_singleton.mp hb]
      exact fun heq => hs.1.2 (heq ▸ hs')
    · intro s' hs'
      rcases List.mem_append.mp hs' with hs' | hs'
      · exact hfresh s' hs'
      · rw [List.mem_singleton.mp hs', lookup_eq_none_iff ht]
        exact ⟨hs.1.1, hs.2⟩

/-! ### Names of structures -/

theorem declare_ok_names {scope : Scope} (ht : t.AtTop) (h : t.declare scope = (u, .ok ())) :
    u.names = t.names ++ scope.map Prod.fst := by
  induction scope generalizing t with
  | nil =>
    cases h
    simp
  | cons b scope ih =>
    obtain ⟨s, k⟩ := b
    rw [declare] at h
    split at h
    · cases h
    have hgrow : t.Grows (t.define s k) := .define .refl (checkFresh_ok ‹_›)
    rw [ih (hgrow.atTop ht) h, ht.names_define]
    simp

theorem declare_error_names {scope : Scope} (ht : t.AtTop) (h : t.declare scope = (u, .error e)) :
    ∃ registered clash rest, scope.map Prod.fst = registered ++ clash :: rest ∧
      u.names = t.names ++ registered ∧ u.lookup clash ≠ none := by
  induction scope generalizing t with
  | nil => cases h
  | cons b scope ih =>
    obtain ⟨s, k⟩ := b
    rw [declare] at h
    split at h
    · rename_i e' hcheck
      cases h
      refine ⟨[], s, scope.map Prod.fst, rfl, by simp, fun hnone => ?_⟩
      simp [checkFresh, hnone] at hcheck
    · have hgrow : t.Grows (t.define s k) := .define .refl (checkFresh_ok ‹_›)
      obtain ⟨registered, clash, rest, hscope, hnames, hclash⟩ := ih (hgrow.atTop ht) h
      refine ⟨s :: registered, clash, rest, by simp [hscope], ?_, hclash⟩
      rw [hnames, ht.names_define]
      simp

end SymbolTable

/-! ### Names that a form introduces -/

namespace Definition

def names : Definition → List String
  | .value s _ | .function s _ _ => [s]
  | .struct s fields => (structNames s fields).map Prod.fst

variable {t u : SymbolTable} {d : Definition} {e : Expr}

theorem resolve_names (ht : t.AtTop) (h : d.resolve t = (u, .ok e)) :
    u.names = t.names ++ d.names := by
  cases d with
  | value s f =>
    rw [resolve] at h
    split at h
    · cases h
    · cases h
      exact ht.names_define
  | function s params body =>
    obtain ⟨rfl, -⟩ := Prod.mk.inj h
    exact ht.names_define
  | struct s fields =>
    rcases hd : t.declare (structNames s fields) with ⟨v, e' | ⟨⟨⟩⟩⟩
    · simp [resolve, hd, Except.map] at h
    · simp only [resolve, hd, Except.map, Prod.mk.injEq, Except.ok.injEq] at h
      obtain ⟨rfl, rfl⟩ := h
      exact SymbolTable.declare_ok_names ht hd

end Definition

namespace Form

def name? : Form → Option String
  | .name s => some s
  | _ => none

/-- The names that a form of the top level introduces when it is resolved. -/
def introduces : Form → List String
  | .group (.keyword .define :: .name s :: _) => [s]
  | .group (.keyword .define :: .group (.name s :: _) :: _) => [s]
  | .group (.keyword .defineStruct :: .name s :: .group fields :: _) =>
    (Definition.struct s (fields.filterMap name?)).names
  | _ => []

/-- The definition that a form of the top level makes, if its parts are as they should be. -/
def definition? (t : SymbolTable) : Form → Option Definition
  | .group (.keyword .define :: parts) => (Definition.ofDefine t parts).toOption
  | .group (.keyword .defineStruct :: parts) => (Definition.ofDefineStruct parts).toOption
  | _ => none

end Form

namespace Definition

variable {t : SymbolTable} {d : Definition}

theorem ofValue_names {s : String} {f : Form} (h : ofValue s f = .ok d) : d.names = [s] := by
  unfold ofValue at h
  split at h
  · obtain ⟨⟨params, body⟩, -, h⟩ := bind_ok.mp h
    cases h
    rfl
  · cases h
    rfl

theorem ofDefine_names {parts : List Form} (h : ofDefine t parts = .ok d) :
    (Form.group (.keyword .define :: parts)).introduces = d.names := by
  unfold ofDefine at h
  split at h
  · obtain ⟨_, -, h⟩ := bind_ok.mp h
    obtain ⟨f, -, h⟩ := bind_ok.mp h
    exact (ofValue_names h).symm
  · obtain ⟨_, -, h⟩ := bind_ok.mp h
    obtain ⟨⟨params, body⟩, -, h⟩ := bind_ok.mp h
    cases h
    rfl
  · cases h
  · cases h

theorem fieldNames_names {seen fields : List String} {fs : List Form}
    (h : fieldNames seen fs = .ok fields) : fs.filterMap Form.name? = fields := by
  induction fs generalizing seen fields with
  | nil =>
    rw [fieldNames] at h
    cases h
    rfl
  | cons f fs ih =>
    cases f with
    | name s =>
      rw [fieldNames] at h
      by_cases hs : s ∈ seen
      · rw [if_pos hs] at h
        cases h
      · rw [if_neg hs] at h
        obtain ⟨names, hnames, rfl⟩ := map_ok.mp h
        rw [List.filterMap_cons, ih hnames]
        rfl
    | group | keyword | number | string | boolean => cases h

theorem ofDefineStruct_names {parts : List Form} (h : ofDefineStruct parts = .ok d) :
    (Form.group (.keyword .defineStruct :: parts)).introduces = d.names := by
  unfold ofDefineStruct at h
  split at h
  · obtain ⟨fields, hfields, h⟩ := bind_ok.mp h
    split at h
    · cases h
      rw [Form.introduces, fieldNames_names hfields]
    · cases h
  · cases h
  · cases h

end Definition

namespace SymbolTable

variable {t u : SymbolTable} {f : Form} {e : ResolveError}

/-! ### Forms that are resolved -/

theorem resolveForm_names {e : Expr} (ht : t.AtTop) (h : t.resolveForm f = (u, .ok e)) :
    u.names = t.names ++ f.introduces := by
  unfold resolveForm at h
  split at h
  · split at h
    · cases h
    · rw [Definition.resolve_names ht h, Definition.ofDefine_names ‹_›]
  · split at h
    · cases h
    · rw [Definition.resolve_names ht h, Definition.ofDefineStruct_names ‹_›]
  · next hdefine hstruct =>
    obtain ⟨rfl, -⟩ := Prod.mk.inj h
    have hnone : f.introduces = [] := by
      unfold Form.introduces
      split
      · exact absurd rfl (hdefine _)
      · exact absurd rfl (hdefine _)
      · exact absurd rfl (hstruct _)
      · rfl
    rw [hnone, List.append_nil]

theorem resolveForms_names {fs : List Form} {p : SplitProgram} (ht : t.AtTop)
    (h : t.resolveForms fs = (u, .ok p)) : u.names = t.names ++ fs.flatMap Form.introduces := by
  fun_induction resolveForms t fs generalizing p with
  | case1 t =>
    cases h
    simp
  | case2 | case4 => simp at h
  | case3 t parts fs test _ v r hr ih =>
    obtain ⟨rfl, hp⟩ := Prod.mk.inj h
    obtain ⟨q, rfl, rfl⟩ := map_ok.mp hp
    rw [ih ht hr]
    rfl
  | case5 t f fs _ v e hf w r hr ih =>
    obtain ⟨rfl, hp⟩ := Prod.mk.inj h
    obtain ⟨q, rfl, rfl⟩ := map_ok.mp hp
    have htop := (resolveForm_registers ht hf).grows.atTop ht
    rw [ih htop hr, resolveForm_names ht hf, List.flatMap_cons, List.append_assoc]

/-- Where in a program a resolved form comes from. -/
theorem resolveForms_split {fs : List Form} {p : SplitProgram} {before after : List Expr} {e : Expr}
    (h : t.resolveForms fs = (u, .ok p)) (hp : p.forms = before ++ e :: after) :
    ∃ earlier f later v w q, fs = earlier ++ f :: later ∧ t.resolveForms earlier = (v, .ok q) ∧
      q.forms = before ∧ v.resolveForm f = (w, .ok e) := by
  fun_induction resolveForms t fs generalizing p before with
  | case1 =>
    cases h
    simp at hp
  | case2 | case4 => simp at h
  | case3 t parts fs test hparts u r hr ih =>
    obtain ⟨rfl, hr'⟩ := Prod.mk.inj h
    obtain ⟨q, rfl, rfl⟩ := map_ok.mp hr'
    obtain ⟨earlier, f, later, v, w, q', rfl, hearlier, hq', hf⟩ := ih hr hp
    refine ⟨_ :: earlier, f, later, v, w, ⟨q'.forms, test :: q'.tests⟩, rfl, ?_, hq', hf⟩
    rw [resolveForms, hparts]
    simp only [hearlier, Except.map]
  | case5 t f fs hf u e' hform v r hr ih =>
    obtain ⟨rfl, hr'⟩ := Prod.mk.inj h
    obtain ⟨q, rfl, rfl⟩ := map_ok.mp hr'
    cases before with
    | nil =>
      cases hp
      exact ⟨[], f, fs, t, u, ⟨[], []⟩, rfl, by rw [resolveForms], rfl, hform⟩
    | cons b before =>
      obtain ⟨rfl, htail⟩ := List.cons.inj hp
      obtain ⟨earlier, g, later, v, w, q', rfl, hearlier, rfl, hg⟩ := ih hr htail
      refine ⟨f :: earlier, g, later, v, w, ⟨e' :: q'.forms, q'.tests⟩, rfl, ?_, rfl, hg⟩
      rw [resolveForms]
      · simp only [hform, hearlier, Except.map]
      · exact hf

theorem resolveProgram_forms {fs : List Form} {p : Program}
    (h : t.resolveProgram fs = (u, .ok p)) :
    ∃ q, t.resolveForms fs = (u, .ok q) ∧ q.forms = p.forms := by
  unfold resolveProgram at h
  rcases hforms : t.resolveForms fs with ⟨w, e | q⟩
  · simp [hforms] at h
  · rw [hforms] at h
    obtain ⟨rfl, hp⟩ := Prod.mk.inj h
    obtain ⟨tests, -, rfl⟩ := map_ok.mp hp
    exact ⟨q, rfl, rfl⟩

/-! ### The form that fails -/

/-- The names that a form adds to the top level when its resolution fails. -/
inductive Leaves (t : SymbolTable) (f : Form) : List String → Prop
  /-- The failure comes before anything is registered. -/
  | nothing (h : ∀ d, f.definition? t = some d → ∃ s expression, d = .value s expression) :
    Leaves t f []
  /-- The body of a function fails, which has been registered before. -/
  | function {s params body e} (h : f.definition? t = some (.function s params body))
    (hbody : body.resolve
      ((t.define s (.function (.exactly params.length))).pushParams params)
      (some (Site.part ⟨s, []⟩ 0)) = .error e) : Leaves t f [s]
  /-- The names of a structure are registered up to the first that is taken. -/
  | struct {s fields registered clash rest} (h : f.definition? t = some (.struct s fields))
    (hnames : (Definition.struct s fields).names = registered ++ clash :: rest)
    (hfresh : ∀ s ∈ registered, t.lookup s = none) (hnodup : registered.Nodup)
    (hclash : t.lookup clash ≠ none ∨ clash ∈ registered) : Leaves t f registered

theorem definition_leaves {d : Definition} (ht : t.AtTop) (hd : f.definition? t = some d)
    (h : d.resolve t = (u, .error e)) : ∃ added, u.names = t.names ++ added ∧ Leaves t f added := by
  cases d with
  | value s g =>
    rw [Definition.resolve] at h
    split at h
    · cases h
      refine ⟨[], by simp, .nothing fun d hd' => ?_⟩
      cases hd.symm.trans hd'
      exact ⟨s, g, rfl⟩
    · cases h
  | function s params body =>
    obtain ⟨rfl, hbody⟩ := Prod.mk.inj h
    refine ⟨[s], ht.names_define, .function (e := e) hd ?_⟩
    exact map_error.mp hbody
  | struct s fields =>
    have hgrow := declare_grows (Definition.structNames s fields) t
    rcases hdeclare : t.declare (Definition.structNames s fields) with ⟨v, e' | ⟨⟨⟩⟩⟩
    · simp only [Definition.resolve, hdeclare, Except.map, Prod.mk.injEq] at h
      obtain ⟨rfl, -⟩ := h
      rw [hdeclare] at hgrow
      obtain ⟨registered, clash, rest, hscope, hnames, hclash⟩ := declare_error_names ht hdeclare
      obtain ⟨added, hadded, hnodup, hfresh⟩ := hgrow.names ht
      obtain rfl : registered = added := List.append_cancel_left (hnames.symm.trans hadded)
      refine ⟨registered, hnames, .struct hd hscope hfresh hnodup ?_⟩
      by_contra! hnot
      refine hclash ((lookup_eq_none_iff (hgrow.atTop ht)).mpr ?_)
      rw [lookup_eq_none_iff ht] at hnot
      rw [hnames, List.mem_append, not_or]
      exact ⟨⟨hnot.1.1, hnot.2⟩, hnot.1.2⟩
    · simp [Definition.resolve, hdeclare, Except.map] at h

theorem resolveForm_leaves (ht : t.AtTop) (h : t.resolveForm f = (u, .error e)) :
    ∃ added, u.names = t.names ++ added ∧ Leaves t f added := by
  have hnothing (hd : f.definition? t = none) : Leaves t f [] := by
    refine .nothing fun d hd' => ?_
    rw [hd] at hd'
    cases hd'
  unfold resolveForm at h
  split at h
  · split at h
    · rename_i hd
      cases h
      exact ⟨[], by simp, hnothing (by rw [Form.definition?, hd]; rfl)⟩
    · rename_i hd
      exact definition_leaves ht (by rw [Form.definition?, hd]; rfl) h
  · split at h
    · rename_i hd
      cases h
      exact ⟨[], by simp, hnothing (by rw [Form.definition?, hd]; rfl)⟩
    · rename_i hd
      exact definition_leaves ht (by rw [Form.definition?, hd]; rfl) h
  · obtain ⟨rfl, -⟩ := Prod.mk.inj h
    refine ⟨[], by simp, hnothing ?_⟩
    unfold Form.definition?
    split <;> simp_all

theorem resolveForms_error {fs : List Form} (h : t.resolveForms fs = (u, .error e)) :
    ∃ before f after v q, fs = before ++ f :: after ∧ t.resolveForms before = (v, .ok q) ∧
      v.resolveForms [f] = (u, .error e) := by
  induction fs generalizing t with
  | nil =>
    rw [resolveForms] at h
    cases h
  | cons f rest ih =>
    rw [← List.singleton_append] at h
    rcases hf : t.resolveForms [f] with ⟨v, e' | q⟩
    · rw [resolveForms_append_error hf] at h
      exact ⟨[], f, rest, t, ⟨[], []⟩, rfl, by rw [resolveForms], hf.trans h⟩
    · rw [resolveForms_append_ok hf] at h
      obtain ⟨hu, he⟩ := Prod.mk.inj h
      have hrest : v.resolveForms rest = (u, .error e) := by
        cases hr : (v.resolveForms rest).2 with
        | error e' =>
          rw [hr] at he
          cases he
          exact Prod.ext hu hr
        | ok q' =>
          rw [hr] at he
          cases he
      obtain ⟨before, g, after, w, q', rfl, hbefore, hg⟩ := ih hrest
      refine ⟨f :: before, g, after, w, q.append q', rfl, ?_, hg⟩
      rw [← List.singleton_append, resolveForms_append_ok hf, hbefore]
      rfl

theorem resolveForms_single_leaves (ht : t.AtTop) (h : t.resolveForms [f] = (u, .error e)) :
    ∃ added, u.names = t.names ++ added ∧ Leaves t f added := by
  by_cases hf : ∃ parts, f = .group (.keyword .checkExpect :: parts)
  · obtain ⟨parts, rfl⟩ := hf
    rw [resolveForms] at h
    have hu : u = t := by
      cases htest : testParts parts with
      | error e' =>
        rw [htest] at h
        cases h
        rfl
      | ok test =>
        rw [htest] at h
        simp [resolveForms, Except.map] at h
    exact ⟨[], by simp [hu], .nothing (by simp [Form.definition?])⟩
  · refine resolveForm_leaves ht (e := e) ?_
    rw [resolveForms] at h
    · rcases hform : t.resolveForm f with ⟨v, e' | e'⟩
      · simpa [hform] using h
      · simp [hform, resolveForms, Except.map] at h
    · intro parts hparts
      exact hf ⟨parts, hparts⟩

end SymbolTable
end BeginningStudent
