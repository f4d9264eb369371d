import BeginningStudent.Proofs.AlphaEquivalence

/-!
# Names of parameters

A parameter of a lambda expression gets another name: in the list of parameters, and where the body
means this parameter (`Expr.rename`). If the new name does not occur in the lambda expression, the
program becomes an alpha-equivalent one, so that all its answers stay the same
(`answers_of_renaming`).
-/

namespace BeginningStudent

def replaceName (p q s : String) : String := if s = p then q else s

namespace Expr

mutual

def names : Expr → List String
  | .identifier s => [s]
  | .lambda _ _ params body => params ++ body.names
  | .call callee arguments => callee.names ++ namesAll arguments
  | .branch _ question answer otherwise => question.names ++ (answer.names ++ namesElse otherwise)
  | .define _ e => e.names
  | .defineStruct _ _ | .literal _ | .quoted _ => []

def namesAll : List Expr → List String
  | [] => []
  | e :: rest => e.names ++ namesAll rest

def namesElse : Option Expr → List String
  | some e => e.names
  | none => []

end

mutual

/-- Replaces the name `p` by `q` where it is free: in identifiers that are not inside of a lambda
expression with the parameter `p`. -/
def rename (p q : String) : Expr → Expr
  | .identifier s => .identifier (replaceName p q s)
  | .lambda site name params body =>
    if p ∈ params then .lambda site name params body
    else .lambda site name params (body.rename p q)
  | .call callee arguments => .call (callee.rename p q) (renameAll p q arguments)
  | .branch form question answer otherwise =>
    .branch form (question.rename p q) (answer.rename p q) (renameElse p q otherwise)
  | .define s e => .define s (e.rename p q)
  | e => e

def renameAll (p q : String) : List Expr → List Expr
  | [] => []
  | e :: rest => e.rename p q :: renameAll p q rest

def renameElse (p q : String) : Option Expr → Option Expr
  | some e => some (e.rename p q)
  | none => none

end

/-- In the second expression the parameter `p` of a lambda expression in the first one has the name
`q`, which did not occur in the lambda expression. -/
inductive RenamesParam (p q : String) : Expr → Expr → Prop
  | here {site name params body} (hp : p ∈ params)
    (hq : q ∉ (Expr.lambda site name params body).names) :
    RenamesParam p q (.lambda site name params body)
      (.lambda site name (params.map (replaceName p q)) (body.rename p q))
  | lambda {site name params body body'} (h : RenamesParam p q body body') :
    RenamesParam p q (.lambda site name params body) (.lambda site name params body')
  | callee {callee callee' arguments} (h : RenamesParam p q callee callee') :
    RenamesParam p q (.call callee arguments) (.call callee' arguments)
  | argument {callee before e e' after} (h : RenamesParam p q e e') :
    RenamesParam p q (.call callee (before ++ e :: after)) (.call callee (before ++ e' :: after))
  | question {form question question' answer otherwise} (h : RenamesParam p q question question') :
    RenamesParam p q (.branch form question answer otherwise)
      (.branch form question' answer otherwise)
  | answer {form question answer answer' otherwise} (h : RenamesParam p q answer answer') :
    RenamesParam p q (.branch form question answer otherwise)
      (.branch form question answer' otherwise)
  | otherwise {form question answer e e'} (h : RenamesParam p q e e') :
    RenamesParam p q (.branch form question answer (some e)) (.branch form question answer (some e'))
  | define {s e e'} (h : RenamesParam p q e e') : RenamesParam p q (.define s e) (.define s e')

end Expr

inductive Command.RenamesParam (p q : String) : Command → Command → Prop
  | form {e e'} (h : e.RenamesParam p q e') : RenamesParam p q (.form e) (.form e')
  | actual {e e' expected} (h : e.RenamesParam p q e') :
    RenamesParam p q (.test ⟨e, expected⟩) (.test ⟨e', expected⟩)
  | expected {actual e e'} (h : e.RenamesParam p q e') :
    RenamesParam p q (.test ⟨actual, e⟩) (.test ⟨actual, e'⟩)

/-! ### Pairs of names -/

namespace Pairing

variable {Γ Δ : Pairing} {s s' : String} {ps : List String}

/-- Names match behind pairs of which each is the two names themselves or has neither of them in its
place, if they are one of these pairs or match without them. -/
theorem Matches.append (hΔ : ∀ b ∈ Δ, b = (s, s') ∨ s ≠ b.1 ∧ s' ≠ b.2)
    (h : (s, s') ∈ Δ ∨ Γ.Matches s s') : Matches (Δ ++ Γ) s s' := by
  induction Δ with
  | nil => exact h.resolve_left List.not_mem_nil
  | cons b Δ ih =>
    obtain ⟨hb, hΔ⟩ := List.forall_mem_cons.mp hΔ
    rcases hb with rfl | ⟨hs, hs'⟩
    · exact .here
    · refine .outer hs hs' (ih hΔ (h.imp_left fun hmem => ?_))
      rcases List.mem_cons.mp hmem with rfl | hmem
      · exact absurd rfl hs
      · exact hmem

theorem mem_params_map {f : String → String} {b : String × String} :
    b ∈ params ps (ps.map f) ↔ ∃ a ∈ ps, (a, f a) = b := by
  rw [params, List.mem_reverse]
  induction ps with
  | nil => simp
  | cons a ps ih => simp [ih, eq_comm]

theorem mem_params_self {b : String × String} : b ∈ params ps ps ↔ ∃ a ∈ ps, (a, a) = b := by
  have h := @mem_params_map ps id b
  rwa [List.map_id] at h

theorem Matches.params_self (h : s ∈ ps ∨ Γ.Matches s s) : Matches (.params ps ps ++ Γ) s s := by
  refine .append (fun b hb => ?_) (h.imp_left fun hs => mem_params_self.mpr ⟨s, hs, rfl⟩)
  obtain ⟨a, -, rfl⟩ := mem_params_self.mp hb
  by_cases hs : s = a
  · exact .inl (by rw [hs])
  · exact .inr ⟨hs, hs⟩

theorem Matches.outside (h : Γ.Matches s s') (hs : s ∉ ps) (hs' : s' ∉ ps) :
    Matches (.params ps ps ++ Γ) s s' := by
  refine .append (fun b hb => .inr ?_) (.inr h)
  obtain ⟨a, ha, rfl⟩ := mem_params_self.mp hb
  exact ⟨ne_of_mem_of_not_mem ha hs |>.symm, ne_of_mem_of_not_mem ha hs' |>.symm⟩

end Pairing

/-! ### Alpha-equivalent expressions -/

namespace Expr

variable {p q : String}

mutual

theorem Alpha.refl {Γ : Pairing} (e : Expr) (h : ∀ s ∈ e.names, Γ.Matches s s) : Alpha Γ e e := by
  match e with
  | .literal d => exact .literal
  | .quoted d => exact .quoted
  | .identifier s => exact .identifier (h s (List.mem_singleton_self s))
  | .defineStruct s fields => exact .defineStruct
  | .define s e => exact .define (Alpha.refl e h)
  | .lambda site name params body =>
    refine .lambda rfl (Alpha.refl body fun s hs => ?_)
    exact .params_self (.inr (h s (List.mem_append_right _ hs)))
  | .call callee arguments =>
    obtain ⟨hcallee, harguments⟩ := List.forall_mem_append.mp h
    exact .call (Alpha.refl callee hcallee) rfl (Alpha.reflAll arguments harguments)
  | .branch form question answer otherwise =>
    obtain ⟨hquestion, hrest⟩ := List.forall_mem_append.mp h
    obtain ⟨hanswer, hotherwise⟩ := List.forall_mem_append.mp hrest
    exact .branch (Alpha.refl question hquestion) (Alpha.refl answer hanswer) rfl
      (Alpha.reflElse otherwise hotherwise)

theorem Alpha.reflAll {Γ : Pairing} (es : List Expr) (h : ∀ s ∈ namesAll es, Γ.Matches s s) :
    ∀ e e', (e, e') ∈ es.zip es → Alpha Γ e e' := by
  match es with
  | [] => simp
  | e :: rest =>
    obtain ⟨he, hrest⟩ := List.forall_mem_append.mp h
    intro d d' hd
    rcases List.mem_cons.mp hd with hd | hd
    · cases hd
      exact Alpha.refl e he
    · exact Alpha.reflAll rest hrest d d' hd

theorem Alpha.reflElse {Γ : Pairing} (otherwise : Option Expr)
    (h : ∀ s ∈ namesElse otherwise, Γ.Matches s s) :
    ∀ e ∈ otherwise, ∀ e' ∈ otherwise, Alpha Γ e e' := by
  match otherwise with
  | none => simp
  | some e =>
    intro d hd d' hd'
    cases hd
    cases hd'
    exact Alpha.refl e h

end

theorem length_renameAll (es : List Expr) : es.length = (renameAll p q es).length := by
  induction es with
  | nil => rfl
  | cons e es ih => rw [renameAll, List.length_cons, List.length_cons, ih]

theorem isSome_renameElse (otherwise : Option Expr) :
    otherwise.isSome = (renameElse p q otherwise).isSome := by
  cases otherwise <;> rfl

/-- The pairs of names around a place are those of a new name `q` for `p`, and of other names for
themselves. -/
structure Renaming (p q : String) (Γ : Pairing) : Prop where
  renamed : Γ.Matches p q
  other : ∀ s, s ≠ p → s ≠ q → Γ.Matches s s

theorem Renaming.matches {Γ : Pairing} (h : Renaming p q Γ) {s : String} (hs : s ≠ q) :
    Γ.Matches s (replaceName p q s) := by
  unfold replaceName
  split
  · next heq => exact heq ▸ h.renamed
  · next hne => exact h.other s hne hs

theorem Renaming.inside {Γ : Pairing} (h : Renaming p q Γ) {params : List String} (hp : p ∉ params)
    (hq : q ∉ params) : Renaming p q (.params params params ++ Γ) where
  renamed := h.renamed.outside hp hq
  other s hsp hsq := .params_self (.inr (h.other s hsp hsq))

mutual

/-- The free occurrences of a name can be replaced by a new name where the two match. -/
theorem rename_alpha {Γ : Pairing} (h : Renaming p q Γ) (e : Expr) (hq : q ∉ e.names) :
    Alpha Γ e (e.rename p q) := by
  match e with
  | .literal d => exact .literal
  | .quoted d => exact .quoted
  | .identifier s =>
    have hs : s ≠ q := fun heq => hq (List.mem_singleton.mpr heq.symm)
    exact .identifier (h.matches hs)
  | .defineStruct s fields => exact .defineStruct
  | .define s e => exact .define (rename_alpha h e hq)
  | .lambda site name params body =>
    obtain ⟨hparams, hbody⟩ := not_or.mp (mt List.mem_append.mpr hq)
    rw [rename]
    split
    · next hp =>
      -- The parameter of this lambda expression hides the one that is renamed.
      refine .lambda rfl (Alpha.refl body fun s hs => .params_self ?_)
      by_cases hmem : s ∈ params
      · exact .inl hmem
      · exact .inr (h.other s (ne_of_mem_of_not_mem hp hmem).symm (ne_of_mem_of_not_mem hs hbody))
    · next hp => exact .lambda rfl (rename_alpha (h.inside hp hparams) body hbody)
  | .call callee arguments =>
    obtain ⟨hcallee, harguments⟩ := not_or.mp (mt List.mem_append.mpr hq)
    exact .call (rename_alpha h callee hcallee) (length_renameAll arguments)
      (renameAll_alpha h arguments harguments)
  | .branch form question answer otherwise =>
    obtain ⟨hquestion, hrest⟩ := not_or.mp (mt List.mem_append.mpr hq)
    obtain ⟨hanswer, hotherwise⟩ := not_or.mp (mt List.mem_append.mpr hrest)
    exact .branch (rename_alpha h question hquestion) (rename_alpha h answer hanswer)
      (isSome_renameElse otherwise) (renameElse_alpha h otherwise hotherwise)

theorem renameAll_alpha {Γ : Pairing} (h : Renaming p q Γ) (es : List Expr)
    (hq : q ∉ namesAll es) : ∀ e e', (e, e') ∈ es.zip (renameAll p q es) → Alpha Γ e e' := by
  match es with
  | [] => simp
  | e :: rest =>
    obtain ⟨he, hrest⟩ := not_or.mp (mt List.mem_append.mpr hq)
    intro d d' hd
    rcases List.mem_cons.mp hd with hd | hd
    · cases hd
      exact rename_alpha h e he
    · exact renameAll_alpha h rest hrest d d' hd

theorem renameElse_alpha {Γ : Pairing} (h : Renaming p q Γ) (otherwise : Option Expr)
    (hq : q ∉ namesElse otherwise) :
    ∀ e ∈ otherwise, ∀ e' ∈ renameElse p q otherwise, Alpha Γ e e' := by
  match otherwise with
  | none => simp
  | some e =>
    intro d hd d' hd'
    cases hd
    cases hd'
    exact rename_alpha h e hq

end

/-! ### Programs with a renamed parameter -/

theorem Renaming.params {Γ : Pairing} (hΓ : ∀ s, Γ.Matches s s) {params : List String}
    (hp : p ∈ params) (hq : q ∉ params) :
    Renaming p q (.params params (params.map (replaceName p q)) ++ Γ) := by
  have hpair : ∀ b ∈ Pairing.params params (params.map (replaceName p q)),
      b = (p, q) ∨ ∃ a, b = (a, a) ∧ a ≠ p ∧ a ≠ q := by
    intro b hb
    obtain ⟨a, ha, rfl⟩ := Pairing.mem_params_map.mp hb
    by_cases hap : a = p
    · exact .inl (by rw [replaceName, if_pos hap, hap])
    · exact .inr ⟨a, by rw [replaceName, if_neg hap], hap, ne_of_mem_of_not_mem ha hq⟩
  constructor
  · refine .append (fun b hb => ?_) (.inl (Pairing.mem_params_map.mpr ⟨p, hp, ?_⟩))
    · rcases hpair b hb with rfl | ⟨a, rfl, hap, haq⟩
      · exact .inl rfl
      · exact .inr ⟨hap.symm, haq.symm⟩
    · rw [replaceName, if_pos rfl]
  · refine fun s hsp hsq => .append (fun b hb => ?_) (.inr (hΓ s))
    rcases hpair b hb with rfl | ⟨a, rfl, -, -⟩
    · exact .inr ⟨hsp, hsq⟩
    · by_cases hs : s = a
      · exact .inl (by rw [hs])
      · exact .inr ⟨hs, hs⟩

theorem RenamesParam.alpha {e e' : Expr} (h : RenamesParam p q e e') {Γ : Pairing}
    (hΓ : ∀ s, Γ.Matches s s) : Alpha Γ e e' := by
  induction h generalizing Γ with
  | here hp hq =>
    obtain ⟨hparams, hbody⟩ := not_or.mp (mt List.mem_append.mpr hq)
    exact .lambda (by simp) (rename_alpha (.params hΓ hp hparams) _ hbody)
  | lambda _ ih => exact .lambda rfl (ih fun s => .params_self (.inr (hΓ s)))
  | callee _ ih =>
    exact .call (ih hΓ) rfl (Alpha.reflAll _ fun s _ => hΓ s)
  | argument _ ih =>
    refine .call (Alpha.refl _ fun s _ => hΓ s) (by simp) fun d d' hd => ?_
    rw [List.zip_append rfl, List.zip_cons_cons] at hd
    rcases List.mem_append.mp hd with hd | hd
    · exact Alpha.reflAll _ (fun s _ => hΓ s) d d' hd
    · rcases List.mem_cons.mp hd with hd | hd
      · cases hd
        exact ih hΓ
      · exact Alpha.reflAll _ (fun s _ => hΓ s) d d' hd
  | question _ ih =>
    exact .branch (ih hΓ) (Alpha.refl _ fun s _ => hΓ s) rfl (Alpha.reflElse _ fun s _ => hΓ s)
  | answer _ ih =>
    exact .branch (Alpha.refl _ fun s _ => hΓ s) (ih hΓ) rfl (Alpha.reflElse _ fun s _ => hΓ s)
  | otherwise _ ih =>
    refine .branch (Alpha.refl _ fun s _ => hΓ s) (Alpha.refl _ fun s _ => hΓ s) rfl ?_
    rintro d ⟨⟩ d' ⟨⟩
    exact ih hΓ
  | define _ ih => exact .define (ih hΓ)

end Expr

theorem Command.Alpha.refl (c : Command) : c.Alpha c := by
  cases c with
  | form e => exact .form (Expr.Alpha.refl e fun _ _ => .free)
  | test t => exact .test (Expr.Alpha.refl _ fun _ _ => .free) (Expr.Alpha.refl _ fun _ _ => .free)

theorem Command.RenamesParam.alpha {p q : String} {c c' : Command} (h : c.RenamesParam p q c') :
    c.Alpha c' := by
  cases h with
  | form h => exact .form (h.alpha fun _ => .free)
  | actual h => exact .test (h.alpha fun _ => .free) (Expr.Alpha.refl _ fun _ _ => .free)
  | expected h => exact .test (Expr.Alpha.refl _ fun _ _ => .free) (h.alpha fun _ => .free)

/-- When a parameter of a lambda expression anywhere in a list of forms and tests gets a name that
does not occur in the lambda expression, all answers stay the same: the values that are printed, the
results of tests, and the kinds and messages of errors. -/
theorem answers_of_renaming {p q : String} {before after : List Command} {c c' : Command}
    (h : c.RenamesParam p q c') (maxDepth : Nat) :
    ((Interpreter.start maxDepth).runCommands (before ++ c' :: after)).2.map Answer.of =
      ((Interpreter.start maxDepth).runCommands (before ++ c :: after)).2.map Answer.of := by
  have hall : ∀ cs : List Command, List.Forall₂ Command.Alpha cs cs :=
    fun cs => List.forall₂_same.mpr fun d _ => .refl d
  have hcs : List.Forall₂ Command.Alpha (before ++ c :: after) (before ++ c' :: after) :=
    List.rel_append (hall before) (.cons h.alpha (hall after))
  exact (Interpreter.answers_alpha (Interpreter.start_alike maxDepth) hcs).2.symm

/-- The parameter of a function becomes `y`, also where a lambda expression in its body means it. -/
theorem answers_of_renaming_function :
    let body : Expr := .call (.lambda ⟨"g", []⟩ none ["z"] (.identifier "x")) [.identifier "x"]
    let body' : Expr := .call (.lambda ⟨"g", []⟩ none ["z"] (.identifier "y")) [.identifier "y"]
    let call : Command := .form (.call (.identifier "f") [.boolean true])
    (Command.form (.define "f" (.lambda ⟨"f", []⟩ (some "f") ["x"] body))).RenamesParam "x" "y"
      (.form (.define "f" (.lambda ⟨"f", []⟩ (some "f") ["y"] body'))) ∧
    ((Interpreter.start 10).runCommands
        [.form (.define "f" (.lambda ⟨"f", []⟩ (some "f") ["y"] body')), call]).2.map Answer.of =
      ((Interpreter.start 10).runCommands
        [.form (.define "f" (.lambda ⟨"f", []⟩ (some "f") ["x"] body)), call]).2.map Answer.of := by
  intro body body' call
  have hrenames : (Command.form (.define "f" (.lambda ⟨"f", []⟩ (some "f") ["x"] body))).RenamesParam
      "x" "y" (.form (.define "f" (.lambda ⟨"f", []⟩ (some "f") ["y"] body'))) :=
    .form (.define (.here (by decide) (by decide)))
  exact ⟨hrenames, @answers_of_renaming _ _ [] [call] _ _ hrenames 10⟩

end BeginningStudent
