import BeginningStudent.Proofs.Tables
import BeginningStudent.Resolve.Program

/-!
# Resolved expressions

`Expr.Resolved top ps e` says what resolution has checked about the expression `e`, which stands
inside the parameters `ps` at a place where the top level defines `top`: every name is bound, and
is used as what it stands for. `resolve_yields` shows it of all expressions that resolution gives,
and `Resolved.mono` that later definitions do not disturb it.
-/

namespace BeginningStudent

/-! ### The judgement -/

namespace Expr

/-- What resolution has checked about an expression inside of the parameters `ps`, the innermost
first. Lambda expressions stand inside of functions only. -/
inductive Resolved (top : Scope) : List String → Expr → Prop
  | literal {ps d} (hd : (Value.ofDatum d).isFlat = true) : Resolved top ps (.literal d)
  | quoted {ps d} (hd : (Value.ofDatum d).isFlat = true) : Resolved top ps (.quoted d)
  | parameter {ps s} (hs : s ∈ ps) : Resolved top ps (.identifier s)
  | global {ps s k} (hs : s ∉ ps) (hk : top.kind? s = some k) (hr : k.isReadable = true) :
    Resolved top ps (.identifier s)
  | call {ps s k arguments} (hs : s ∉ ps) (hk : top.kind? s = some k)
    (hn : k.admits arguments.length = true) (ha : ∀ e ∈ arguments, Resolved top ps e) :
    Resolved top ps (.call (.identifier s) arguments)
  | lambda {ps site params body} (hps : ps ≠ []) (hne : params ≠ []) (hnd : params.Nodup)
    (hb : Resolved top (params.reverse ++ ps) body) :
    Resolved top ps (.lambda site none params body)
  | branch {ps form question answer otherwise} (hq : Resolved top ps question)
    (ha : Resolved top ps answer) (ho : ∀ e, otherwise = some e → Resolved top ps e)
    (hf : otherwise = none → form = .cond) :
    Resolved top ps (.branch form question answer otherwise)

variable {top : Scope} {ps : List String}

theorem Resolved.mono {top' : Scope} {e : Expr} (he : e.Resolved top ps)
    (htop : top'.Extends top) : e.Resolved top' ps := by
  induction he with
  | literal hd => exact .literal hd
  | quoted hd => exact .quoted hd
  | parameter hs => exact .parameter hs
  | global hs hk hr => exact .global hs (htop _ _ hk) hr
  | call hs hk hn _ ih => exact .call hs (htop _ _ hk) hn ih
  | lambda hps hne hnd _ ih => exact .lambda hps hne hnd ih
  | branch _ _ _ hf ihq iha iho => exact .branch ihq iha iho hf

/-! ### Lowered forms -/

theorem Resolved.boolean (b : Bool) : (Expr.boolean b).Resolved top ps := by
  cases b <;> exact .literal rfl

theorem Resolved.cond {clauses : List (Expr × Expr)} {otherwise : Option Expr} {e : Expr}
    (hc : ∀ c ∈ clauses, c.1.Resolved top ps ∧ c.2.Resolved top ps)
    (ho : ∀ e, otherwise = some e → e.Resolved top ps) (he : cond? clauses otherwise = some e) :
    e.Resolved top ps := by
  induction clauses generalizing e with
  | nil => exact ho e he
  | cons c clauses ih =>
    obtain ⟨hq, ha⟩ := hc c List.mem_cons_self
    cases he
    exact .branch hq ha (fun e he => ih (fun c hc' => hc c (List.mem_cons_of_mem _ hc')) he)
      fun _ => rfl

theorem Resolved.conjunction {operands : List Expr} (h : ∀ e ∈ operands, e.Resolved top ps) :
    (Expr.conjunction operands).Resolved top ps := by
  induction operands with
  | nil => exact .boolean true
  | cons e operands ih =>
    refine .branch (h e List.mem_cons_self) (ih fun e he => h e (List.mem_cons_of_mem _ he)) ?_ ?_
    · rintro _ ⟨⟩
      exact .boolean false
    · rintro ⟨⟩

theorem Resolved.disjunction {operands : List Expr} (h : ∀ e ∈ operands, e.Resolved top ps) :
    (Expr.disjunction operands).Resolved top ps := by
  induction operands with
  | nil => exact .boolean false
  | cons e operands ih =>
    refine .branch (h e List.mem_cons_self) (.boolean true) ?_ ?_
    · rintro _ ⟨⟩
      exact ih fun e he => h e (List.mem_cons_of_mem _ he)
    · rintro ⟨⟩

end Expr

/-! ### Resolution gives resolved expressions -/

namespace Form

theorem paramNames_iff {form : Keyword} {seen names : List String} {ps : List Form} :
    paramNames form seen ps = .ok names ↔
      ps = names.map .name ∧ names.Nodup ∧ ∀ s ∈ names, s ∉ seen := by
  constructor
  · intro h
    fun_induction paramNames form seen ps generalizing names with
    | case1 seen =>
      obtain rfl := Except.ok.inj h
      simp
    | case2 | case4 => simp at h
    | case3 seen s ps hs ih =>
      obtain ⟨names, hnames, rfl⟩ := map_ok.mp h
      obtain ⟨rfl, hnd, hseen⟩ := ih hnames
      have hs' : s ∉ names := fun hmem => hseen s hmem List.mem_cons_self
      refine ⟨rfl, List.nodup_cons.mpr ⟨hs', hnd⟩, ?_⟩
      intro s' hs'
      rcases List.mem_cons.mp hs' with rfl | hs'
      · exact hs
      · exact fun hmem => hseen s' hs' (List.mem_cons_of_mem _ hmem)
  · intro h
    obtain ⟨rfl, hnd, hseen⟩ := h
    induction names generalizing seen with
    | nil => rfl
    | cons s names ih =>
      obtain ⟨hs, hnd⟩ := List.nodup_cons.mp hnd
      rw [List.map_cons, paramNames, if_neg (hseen s List.mem_cons_self), ih hnd]
      · rfl
      · intro s' hs' hmem
        rcases List.mem_cons.mp hmem with rfl | hmem
        · exact hs hs'
        · exact hseen s' (List.mem_cons_of_mem _ hs') hmem

theorem paramNames_ne_nil {form : Keyword} {names : List String} {ps : List Form}
    (hps : ps.isEmpty = false) (h : paramNames form [] ps = .ok names) : names ≠ [] := by
  obtain ⟨rfl, -, -⟩ := paramNames_iff.mp h
  rintro rfl
  simp at hps

theorem soleBody_iff {form : Keyword} {bs : List Form} {body : Form} :
    soleBody form bs = .ok body ↔ bs = [body] := by
  constructor
  · intro h
    unfold soleBody at h
    split at h
    · cases h
    · cases h
      rfl
    · cases h
  · intro h
    rw [h]
    rfl

theorem functionParts_iff {ps bs : List Form} {params : List String} {body : Form} :
    functionParts ps bs = .ok (params, body) ↔
      ps = params.map .name ∧ params ≠ [] ∧ params.Nodup ∧ bs = [body] := by
  constructor
  · intro h
    unfold functionParts at h
    split at h
    · cases h
    next hps =>
      obtain ⟨names, hnames, h⟩ := bind_ok.mp h
      obtain ⟨body', hbody, h⟩ := bind_ok.mp h
      cases h
      obtain ⟨hmap, hnd, -⟩ := paramNames_iff.mp hnames
      exact ⟨hmap, paramNames_ne_nil (by simpa using hps) hnames, hnd, soleBody_iff.mp hbody⟩
  · intro h
    obtain ⟨rfl, hne, hnd, rfl⟩ := h
    have hnames : paramNames .define [] (params.map .name) = .ok params :=
      paramNames_iff.mpr ⟨rfl, hnd, by simp⟩
    rw [functionParts, if_neg (by simpa using hne), hnames]
    rfl

theorem lambdaParts_ok {parts : List Form} {params : List String} {body : Form}
    (h : lambdaParts parts = .ok (params, body)) : params ≠ [] ∧ params.Nodup := by
  unfold lambdaParts at h
  split at h
  · split at h
    · cases h
    next hne =>
      obtain ⟨names, hnames, h⟩ := bind_ok.mp h
      obtain ⟨body', -, h⟩ := bind_ok.mp h
      cases h
      exact ⟨paramNames_ne_nil (by simpa using hne) hnames, (paramNames_iff.mp hnames).2.1⟩
  · cases h

end Form

namespace SymbolTable

variable {t : SymbolTable} {s : String}

theorem reference_yields (ht : t.OnlyParams) :
    Yields (Expr.Resolved t.top t.params) (fun _ => True) (t.reference s) := by
  by_cases hs : s ∈ t.params
  · rw [reference, lookup_param ht hs]
    exact .parameter hs
  · rw [reference, lookup_top hs]
    rcases hk : t.top.kind? s with _ | k
    · trivial
    cases k <;> first | trivial | exact .global hs hk rfl

theorem checkCall_ok (ht : t.OnlyParams) {n : Nat} (h : t.checkCall s n = .ok ()) :
    s ∉ t.params ∧ ∃ k, t.top.kind? s = some k ∧ k.admits n = true := by
  by_cases hs : s ∈ t.params
  · rw [checkCall, lookup_param ht hs] at h
    cases h
  · refine ⟨hs, ?_⟩
    rw [checkCall, lookup_top hs] at h
    rcases hk : t.top.kind? s with _ | k
    · rw [hk] at h
      cases h
    rw [hk] at h
    refine ⟨k, rfl, ?_⟩
    rcases k with _ | a | a | _ | _ | _
    · cases h
    · dsimp only at h
      split at h
      · assumption
      · cases h
    · cases a with
      | exactly m =>
        dsimp only at h
        split at h
        · assumption
        · cases h
      | atLeast m => rfl
    all_goals cases h

end SymbolTable

namespace Form

open SymbolTable

theorem quotation_yields (top : Scope) (ps : List String) (parts : List Form) :
    Yields (Expr.Resolved top ps) (fun _ => True) (quotation parts) := by
  unfold quotation
  split
  · exact .quoted rfl
  · exact .quoted rfl
  · trivial
  · trivial

/-- A lambda expression is only resolved inside of a function. -/
def SiteFits (t : SymbolTable) (site : Option Site) : Prop := site ≠ none → t.params ≠ []

theorem SiteFits.part {t : SymbolTable} {site : Option Site} (h : SiteFits t site) (i : Nat) :
    SiteFits t (partSite site i) := by
  intro hs
  refine h fun hnone => hs ?_
  rw [hnone]
  rfl

theorem SiteFits.body {t : SymbolTable} {params : List String} (hne : params ≠ [])
    (site : Option Site) : SiteFits (t.pushParams params) site := by
  intro _ hnil
  rw [params_pushParams] at hnil
  simp [hne] at hnil

theorem resolveSpecial_lambda {t : SymbolTable} {s : Site} {parts : List Form}
    {params : List String} {body : Form} (h : lambdaParts parts = .ok (params, body)) :
    resolveSpecial t (some s) .lambda parts = do
      return .lambda s none params (← resolve (t.pushParams params) (some (s.part 0)) body) := by
  rw [resolveSpecial]
  split
  · simp_all
  · rename_i h'
    cases h.symm.trans h'
    rfl

theorem resolveSpecial_lambda_error {t : SymbolTable} {s : Site} {parts : List Form}
    {e : ResolveError} (h : lambdaParts parts = .error e) :
    resolveSpecial t (some s) .lambda parts = .error e := by
  rw [resolveSpecial]
  split
  · rename_i h'
    cases h.symm.trans h'
    rfl
  · simp_all

theorem resolveSpecial_cond {t : SymbolTable} {site : Option Site} {clauses : List Form}
    (h : clauses ≠ []) :
    resolveSpecial t site .cond clauses =
      (do
        let (clauses, otherwise) ← resolveClauses t site 0 clauses
        match Expr.cond? clauses otherwise with
        | some e => .ok e
        | none => .error .emptyCond) := by
  cases clauses with
  | nil => exact absurd rfl h
  | cons clause clauses =>
    unfold resolveSpecial
    rfl

theorem resolveClauses_question {t : SymbolTable} {site : Option Site} {i : Nat}
    {question answer : Form} {rest : List Form} (h : question ≠ .keyword .elseClause) :
    resolveClauses t site i (.group [question, answer] :: rest) = do
      let question ← resolve t (partSite site (2 * i)) question
      let answer ← resolve t (partSite site (2 * i + 1)) answer
      let (clauses, otherwise) ← resolveClauses t site (i + 1) rest
      return ((question, answer) :: clauses, otherwise) := by
  rw [resolveClauses]
  exact h

mutual

theorem resolve_yields {t : SymbolTable} {site : Option Site} (ht : t.OnlyParams)
    (hsite : SiteFits t site) (f : Form) :
    Yields (Expr.Resolved t.top t.params) (fun _ => True) (f.resolve t site) := by
  match f with
  | .number _ | .string _ | .boolean _ =>
    rw [resolve]
    exact .literal rfl
  | .name s =>
    rw [resolve]
    exact reference_yields ht
  | .keyword _ | .group [] =>
    rw [resolve]
    trivial
  | .group (.keyword k :: parts) =>
    rw [resolve]
    exact resolveSpecial_yields ht hsite k parts
  | .group (.name s :: arguments) =>
    rw [resolve]
    cases hc : t.checkCall s arguments.length with
    | error e => trivial
    | ok u =>
      obtain ⟨hs, k, hk, hn⟩ := checkCall_ok ht hc
      refine (resolveAll_yields ht hsite 0 arguments).bind fun es hes => ?_
      exact .call hs hk (by rw [hes.1]; exact hn) hes.2
  | .group (.group _ :: _) | .group (.number _ :: _) | .group (.string _ :: _)
  | .group (.boolean _ :: _) =>
    rw [resolve] <;> first | trivial | simp
termination_by 2 * sizeOf f

theorem resolveSpecial_yields {t : SymbolTable} {site : Option Site} (ht : t.OnlyParams)
    (hsite : SiteFits t site) (k : Keyword) (parts : List Form) :
    Yields (Expr.Resolved t.top t.params) (fun _ => True) (resolveSpecial t site k parts) := by
  match k with
  | .define | .defineStruct | .checkExpect | .elseClause =>
    rw [resolveSpecial]
    trivial
  | .quote =>
    rw [resolveSpecial]
    exact quotation_yields _ _ parts
  | .lambda =>
    cases site with
    | none =>
      rw [resolveSpecial]
      trivial
    | some s =>
      cases hl : lambdaParts parts with
      | error e =>
        rw [resolveSpecial_lambda_error hl]
        trivial
      | ok p =>
        obtain ⟨params, body⟩ := p
        obtain ⟨hne, hnd⟩ := lambdaParts_ok hl
        have hsize := sizeOf_of_lambdaParts hl
        rw [resolveSpecial_lambda hl]
        have hfits := SiteFits.body (t := t) hne (some (s.part 0))
        refine (resolve_yields (ht.pushParams params) hfits body).bind fun e he => ?_
        rw [pushParams_top, params_pushParams] at he
        exact .lambda (hsite (by simp)) hne hnd he
  | .ifElse =>
    match parts with
    | [question, answer, otherwise] =>
      rw [resolveSpecial]
      refine (resolve_yields ht (hsite.part 0) question).bind fun q hq => ?_
      refine (resolve_yields ht (hsite.part 1) answer).bind fun a ha => ?_
      refine (resolve_yields ht (hsite.part 2) otherwise).bind fun o ho => ?_
      exact .branch hq ha (by rintro _ ⟨⟩; exact ho) (by rintro ⟨⟩)
    | [] | [_] | [_, _] | _ :: _ :: _ :: _ :: _ =>
      rw [resolveSpecial]
      · trivial
      · simp
  | .cond =>
    match parts with
    | [] =>
      rw [resolveSpecial]
      trivial
    | clause :: clauses =>
      rw [resolveSpecial_cond (List.cons_ne_nil _ _)]
      refine (resolveClauses_yields ht hsite 0 (clause :: clauses)).bind fun r hr => ?_
      obtain ⟨cs, otherwise⟩ := r
      dsimp only
      split
      · exact .cond hr.1 hr.2 ‹_›
      · trivial
  | .conjunction =>
    rw [resolveSpecial]
    split
    · exact (resolveAll_yields ht hsite 0 parts).map fun es hes => .conjunction hes.2
    · trivial
  | .disjunction =>
    rw [resolveSpecial]
    split
    · exact (resolveAll_yields ht hsite 0 parts).map fun es hes => .disjunction hes.2
    · trivial
termination_by 2 * sizeOf parts + 1

theorem resolveAll_yields {t : SymbolTable} {site : Option Site} (ht : t.OnlyParams)
    (hsite : SiteFits t site) (i : Nat) (fs : List Form) :
    Yields (fun es => es.length = fs.length ∧ ∀ e ∈ es, e.Resolved t.top t.params) (fun _ => True)
      (resolveAll t site i fs) := by
  match fs with
  | [] =>
    rw [resolveAll]
    exact ⟨rfl, by simp⟩
  | f :: rest =>
    rw [resolveAll]
    refine (resolve_yields ht (hsite.part i) f).bind fun e he => ?_
    refine (resolveAll_yields ht hsite (i + 1) rest).bind fun es hes => ?_
    refine ⟨by simp [hes.1], fun e' he' => ?_⟩
    rcases List.mem_cons.mp he' with rfl | he'
    · exact he
    · exact hes.2 e' he'
termination_by 2 * sizeOf fs

theorem resolveClauses_yields {t : SymbolTable} {site : Option Site} (ht : t.OnlyParams)
    (hsite : SiteFits t site) (i : Nat) (clauses : List Form) :
    Yields
      (fun r => (∀ c ∈ r.1, c.1.Resolved t.top t.params ∧ c.2.Resolved t.top t.params) ∧
        ∀ e, r.2 = some e → e.Resolved t.top t.params)
      (fun _ => True) (resolveClauses t site i clauses) := by
  match clauses with
  | [] =>
    rw [resolveClauses]
    exact ⟨by simp, by simp⟩
  | .group [question, answer] :: rest =>
    by_cases hq : question = .keyword .elseClause
    · subst hq
      rw [resolveClauses]
      split
      · refine (resolve_yields ht (hsite.part _) answer).bind fun a ha => ?_
        exact ⟨by simp, by rintro _ ⟨⟩; exact ha⟩
      · trivial
    · rw [resolveClauses_question hq]
      refine (resolve_yields ht (hsite.part _) question).bind fun q hq => ?_
      refine (resolve_yields ht (hsite.part _) answer).bind fun a ha => ?_
      refine (resolveClauses_yields ht hsite (i + 1) rest).bind fun r hr => ?_
      obtain ⟨cs, otherwise⟩ := r
      refine ⟨fun c hc => ?_, hr.2⟩
      rcases List.mem_cons.mp hc with rfl | hc
      · exact ⟨hq, ha⟩
      · exact hr.1 c hc
  | .group [] :: _ | .group [_] :: _ | .group (_ :: _ :: _ :: _) :: _ | .name _ :: _
  | .keyword _ :: _ | .number _ :: _ | .string _ :: _ | .boolean _ :: _ =>
    rw [resolveClauses]
    · trivial
    all_goals simp
termination_by 2 * sizeOf clauses

end

end Form
end BeginningStudent
