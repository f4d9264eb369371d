import BeginningStudent.Proofs.FrontEnd

/-!
# Names and numbers of a source

What a word of a source can be is kept by all stages up to the resolved program: the names of
structures have no delimiters in them, and no number literal is a complex number that should be a
real (`readSource_clean`, `SymbolTable.resolveProgram_clean`).
-/

namespace BeginningStudent

/-! ### Tokens -/

namespace Token

/-- No character ends a name or number. -/
def Undelimited (s : List Char) : Prop := ∀ c ∈ s, isDelimiter c = false

instance (s : List Char) : Decidable (Undelimited s) :=
  List.decidableBAll (fun c => isDelimiter c = false) s

def Clean : Token → Prop
  | .name s => Undelimited s.toList
  | .number z => z.Collapsed
  | _ => True

theorem skipBlanks_cons {s rest : List Char} {c : Char} (h : skipBlanks s = .ok (c :: rest)) :
    Text.isBlank c = false ∧ c ≠ ';' ∧ ∀ rest', c = '#' → rest ≠ '|' :: rest' := by
  fun_induction skipBlanks s with
  | case1 | case4 => simp at h
  | case2 _ ih | case3 _ _ _ ih | case5 _ _ _ _ _ ih => exact ih h
  | case6 c s hline hblock hc =>
    cases h
    exact ⟨by simpa using hc, hline, fun rest' hc hrest => hblock rest' hc hrest⟩

theorem ofWord_clean {word : List Char} {t : Token} (hw : Undelimited word)
    (h : ofWord word = .ok t) : t.Clean := by
  unfold ofWord at h
  dsimp only at h
  split at h
  any_goals (cases h; trivial)
  split at h
  · next z hz =>
    cases h
    exact Number.collapsed_number? hz
  · cases h
  · cases h
  · split at h
    · cases h
    · split at h
      · cases h
        trivial
      · cases h
        rw [Clean, String.toList_ofList]
        exact hw

theorem undelimited_takeWhile (s : List Char) :
    Undelimited (s.takeWhile (!isDelimiter ·)) := by
  intro c hc
  simpa using List.all_eq_true.mp List.all_takeWhile c hc

/-- The characters of words are those that begin no blank, bracket, string, quote mark or comment. -/
theorem isDelimiter_eq_false_iff {c : Char} :
    isDelimiter c = false ↔ Text.isBlank c = false ∧ Bracket.ofOpening? c = none ∧
      Bracket.ofClosing? c = none ∧ c ∉ ['"', '\'', ';', '`', ','] := by
  constructor
  · intro hc
    have hne : ∀ d, isDelimiter d = true → c ≠ d := by
      rintro d hd rfl
      rw [hc] at hd
      cases hd
    have hblank : Text.isBlank c = false := (Bool.or_eq_false_iff.mp hc).1
    refine ⟨hblank, ?_, ?_, ?_⟩
    · simp [Bracket.ofOpening?, hne '(' (by decide), hne '[' (by decide), hne '\x7b' (by decide)]
    · simp [Bracket.ofClosing?, hne ')' (by decide), hne ']' (by decide), hne '\x7d' (by decide)]
    · have hall : ['"', '\'', ';', '`', ','].all isDelimiter = true := by decide
      intro hmem
      exact hne c (List.all_eq_true.mp hall c hmem) rfl
  · rintro ⟨hblank, hopen, hclose, h⟩
    have hall : "()[]\x7b\x7d\"';`,".toList.all (fun d => (Bracket.ofOpening? d).isSome ||
        (Bracket.ofClosing? d).isSome || ['"', '\'', ';', '`', ','].contains d) = true := by
      decide
    rw [isDelimiter, hblank, Bool.false_or, List.contains_eq_mem, decide_eq_false_iff_not]
    intro hmem
    have hc := List.all_eq_true.mp hall c hmem
    rw [hopen, hclose] at hc
    exact h (List.contains_iff_mem.mp (by simpa using hc))

/-- A token that is no bracket, quote mark or string is the word at its place. -/
theorem next_word {c : Char} {rest rest' : List Char} {t : Token}
    (hblank : Text.isBlank c = false) (hline : c ≠ ';') (h : next c rest = .ok (t, rest')) :
    (∃ b, t = .opening b) ∨ (∃ b, t = .closing b) ∨ t = .quote ∨ (∃ s, t = .string s) ∨
      isDelimiter c = false ∧ ofWord (c :: rest.takeWhile (!isDelimiter ·)) = .ok t ∧
        rest' = rest.dropWhile (!isDelimiter ·) := by
  unfold next at h
  split at h
  · cases h
    exact .inl ⟨_, rfl⟩
  · cases h
    exact .inr (.inl ⟨_, rfl⟩)
  · next hopen hclose =>
    split at h
    · cases h
      exact .inr (.inr (.inl rfl))
    next hquote =>
    split at h
    · obtain ⟨⟨contents, _⟩, -, h⟩ := bind_ok.mp h
      cases h
      exact .inr (.inr (.inr (.inl ⟨_, rfl⟩)))
    next hstring =>
    split at h
    · cases h
    next hbad =>
    obtain ⟨t', ht', h⟩ := bind_ok.mp h
    cases h
    have hc : isDelimiter c = false := by
      simp only [not_or] at hbad
      refine isDelimiter_eq_false_iff.mpr ⟨hblank, hopen, hclose, ?_⟩
      simp [hquote, hstring, hline, hbad.1, hbad.2]
    exact .inr (.inr (.inr (.inr ⟨hc, ht', rfl⟩)))

theorem next_clean {c : Char} {rest rest' : List Char} {t : Token}
    (hblank : Text.isBlank c = false) (hline : c ≠ ';') (h : next c rest = .ok (t, rest')) :
    t.Clean := by
  rcases next_word hblank hline h with ⟨b, rfl⟩ | ⟨b, rfl⟩ | rfl | ⟨s, rfl⟩ | ⟨hc, hword, -⟩
  · trivial
  · trivial
  · trivial
  · trivial
  · refine ofWord_clean (fun d hd => ?_) hword
    rcases List.mem_cons.mp hd with rfl | hd
    · exact hc
    · exact undelimited_takeWhile rest d hd

theorem scan_clean (s : List Char) : ∀ t ∈ (scan s).1, t.Clean := by
  fun_induction scan s with
  | case1 | case2 | case3 => simp
  | case4 s c rest hs t rest' ht us e? hus ih =>
    obtain ⟨hblank, hline, -⟩ := skipBlanks_cons hs
    intro t' ht'
    rcases List.mem_cons.mp ht' with rfl | ht'
    · exact next_clean hblank hline ht
    · rw [hus] at ih
      exact ih t' ht'

end Token

/-! ### Forms -/

namespace Form

inductive Clean : Form → Prop
  | group {items} (h : ∀ f ∈ items, Clean f) : Clean (.group items)
  | name {s} (hs : Token.Undelimited s.toList) : Clean (.name s)
  | keyword {k} : Clean (.keyword k)
  | number {z} (hz : z.Collapsed) : Clean (.number z)
  | string {s} : Clean (.string s)
  | boolean {b} : Clean (.boolean b)

theorem Clean.items {items : List Form} (h : (Form.group items).Clean) : ∀ f ∈ items, f.Clean := by
  cases h with
  | group h => exact h

theorem Clean.quoted {f : Form} (hf : f.Clean) : f.quoted.Clean := by
  refine .group fun g hg => ?_
  rcases List.mem_cons.mp hg with rfl | hg
  · exact .keyword
  · rwa [List.mem_singleton.mp hg]

theorem clean_keywordName (k : Keyword) : (name k.name).Clean := by
  have hk : Token.Undelimited k.name.toList := by cases k <;> decide
  exact .name hk

def Pending.Clean : Pending → Prop
  | .group _ items => ∀ f ∈ items, f.Clean
  | .quote => True

namespace ReadState

structure Clean (s : ReadState) : Prop where
  done : ∀ f ∈ s.done, f.Clean
  pending : ∀ p ∈ s.pending, p.Clean

theorem push_clean {done : List Form} {f : Form} {pending : List Pending}
    (hdone : ∀ g ∈ done, g.Clean) (hf : f.Clean) (hpending : ∀ p ∈ pending, p.Clean) :
    (push done f pending).Clean := by
  induction pending generalizing f with
  | nil => exact ⟨List.forall_mem_cons.mpr ⟨hf, hdone⟩, by simp [push]⟩
  | cons p outer ih =>
    obtain ⟨hp, houter⟩ := List.forall_mem_cons.mp hpending
    cases p with
    | quote => exact ih hf.quoted houter
    | group b items =>
      exact ⟨hdone, List.forall_mem_cons.mpr ⟨List.forall_mem_cons.mpr ⟨hf, hp⟩, houter⟩⟩

theorem keywordForm?_clean {k : Keyword} {pending : List Pending} {f : Form}
    (h : keywordForm? k pending = some f) : f.Clean := by
  unfold keywordForm? at h
  split at h <;> cases h <;> first | exact clean_keywordName k | exact .keyword

theorem step_clean {s : ReadState} (hs : s.Clean) {t : Token} (ht : t.Clean) :
    Yields Clean (fun _ => True) (s.step t) := by
  have hgroup : ∀ b, (Pending.group b []).Clean := fun b => by simp [Pending.Clean]
  cases t with
  | opening b => exact ⟨hs.done, List.forall_mem_cons.mpr ⟨hgroup b, hs.pending⟩⟩
  | closing b =>
    have hpending := hs.pending
    rw [step, close]
    split
    · next opened items outer hp =>
      rw [hp] at hpending
      obtain ⟨hitems, houter⟩ := List.forall_mem_cons.mp hpending
      split
      · exact push_clean hs.done (.group fun f hf => hitems f (List.mem_reverse.mp hf)) houter
      · trivial
    · trivial
  | quote => exact ⟨hs.done, List.forall_mem_cons.mpr ⟨trivial, hs.pending⟩⟩
  | keyword k =>
    rw [step]
    split
    · exact push_clean hs.done (keywordForm?_clean ‹_›) hs.pending
    · trivial
  | name s => exact push_clean hs.done (.name ht) hs.pending
  | number z => exact push_clean hs.done (.number ht) hs.pending
  | string s => exact push_clean hs.done .string hs.pending
  | boolean b => exact push_clean hs.done .boolean hs.pending

end ReadState

theorem read_clean {ts : List Token} {fs : List Form} (hts : ∀ t ∈ ts, t.Clean)
    (h : read ts = .ok fs) : ∀ f ∈ fs, f.Clean := by
  obtain ⟨s, hs, hfinish⟩ := bind_ok.mp h
  have hstart : ReadState.start.Clean := ⟨by simp [ReadState.start], by simp [ReadState.start]⟩
  have hclean : Yields ReadState.Clean (fun _ => True) (readOnto .start ts) :=
    Yields.foldlM ts hstart fun _ hs t ht => ReadState.step_clean hs (hts t ht)
  rw [hs] at hclean
  unfold ReadState.finish at hfinish
  split at hfinish <;> cases hfinish
  intro f hf
  exact hclean.done f (List.mem_reverse.mp hf)

end Form

theorem readSource_clean {source : String} {fs : List Form} (h : readSource source = .ok fs) :
    ∀ f ∈ fs, f.Clean := by
  unfold readSource at h
  obtain ⟨ts, hts, h⟩ := bind_ok.mp h
  have hscan : ∀ t ∈ ts, t.Clean := by
    have hall := Token.scan_clean source.toList
    unfold Token.ofSource at hts
    split at hts
    · next hs =>
      cases hts
      rwa [hs] at hall
    · cases hts
  cases hread : Form.read ts with
  | error e =>
    rw [hread] at h
    cases h
  | ok gs =>
    rw [hread] at h
    cases h
    exact Form.read_clean hscan hread

/-! ### Expressions -/

/-- The literals of an expression are simple values, and the names of structures that it defines
have no delimiters. -/
inductive Expr.Clean : Expr → Prop
  | literal {d} (hd : (Value.ofDatum d).Simple) : Clean (.literal d)
  | quoted {d} (hd : (Value.ofDatum d).Simple) : Clean (.quoted d)
  | identifier {s} : Clean (.identifier s)
  | lambda {site name params body} (hb : Clean body) : Clean (.lambda site name params body)
  | call {callee arguments} (hc : Clean callee) (ha : ∀ e ∈ arguments, Clean e) :
    Clean (.call callee arguments)
  | branch {form question answer otherwise} (hq : Clean question) (ha : Clean answer)
    (ho : ∀ e, otherwise = some e → Clean e) : Clean (.branch form question answer otherwise)
  | define {s e} (he : Clean e) : Clean (.define s e)
  | defineStruct {s fields} (hs : Token.Undelimited s.toList) : Clean (.defineStruct s fields)

namespace Expr

theorem Clean.boolean (b : Bool) : (Expr.boolean b).Clean := .literal rfl

theorem Clean.cond {clauses : List (Expr × Expr)} {otherwise : Option Expr} {e : Expr}
    (hc : ∀ c ∈ clauses, c.1.Clean ∧ c.2.Clean) (ho : ∀ e, otherwise = some e → e.Clean)
    (he : cond? clauses otherwise = some e) : e.Clean := by
  induction clauses generalizing e with
  | nil => exact ho e he
  | cons c clauses ih =>
    obtain ⟨⟨hq, ha⟩, hclauses⟩ := List.forall_mem_cons.mp hc
    cases he
    exact .branch hq ha fun e he => ih hclauses he

theorem Clean.conjunction {operands : List Expr} (h : ∀ e ∈ operands, e.Clean) :
    (Expr.conjunction operands).Clean := by
  induction operands with
  | nil => exact .boolean true
  | cons e operands ih =>
    obtain ⟨he, hoperands⟩ := List.forall_mem_cons.mp h
    refine .branch he (ih hoperands) ?_
    rintro _ ⟨⟩
    exact .boolean false

theorem Clean.disjunction {operands : List Expr} (h : ∀ e ∈ operands, e.Clean) :
    (Expr.disjunction operands).Clean := by
  induction operands with
  | nil => exact .boolean false
  | cons e operands ih =>
    obtain ⟨he, hoperands⟩ := List.forall_mem_cons.mp h
    refine .branch he (.boolean true) ?_
    rintro _ ⟨⟩
    exact ih hoperands

end Expr

/-! ### Resolution -/

theorem SymbolTable.reference_clean (t : SymbolTable) (s : String) :
    Yields Expr.Clean (fun _ => True) (t.reference s) := by
  unfold reference
  split <;> first | trivial | exact .identifier

namespace Form

theorem quotation_clean (parts : List Form) :
    Yields Expr.Clean (fun _ => True) (quotation parts) := by
  unfold quotation
  split
  · exact .quoted rfl
  · exact .quoted rfl
  · trivial
  · trivial

variable {t : SymbolTable} {site : Option Site}

mutual

theorem resolve_clean {t : SymbolTable} {site : Option Site} {f : Form} (hf : f.Clean) :
    Yields Expr.Clean (fun _ => True) (f.resolve t site) := by
  match f with
  | .number z =>
    cases hf with
    | number hz =>
      rw [resolve]
      exact .literal hz
  | .string _ | .boolean _ =>
    rw [resolve]
    exact .literal rfl
  | .name s =>
    rw [resolve]
    exact t.reference_clean s
  | .keyword _ | .group [] =>
    rw [resolve]
    trivial
  | .group (.keyword k :: parts) =>
    rw [resolve]
    exact resolveSpecial_clean k (List.forall_mem_cons.mp hf.items).2
  | .group (.name s :: arguments) =>
    rw [resolve]
    cases t.checkCall s arguments.length with
    | error e => trivial
    | ok u =>
      have harguments := (List.forall_mem_cons.mp hf.items).2
      exact (resolveAll_clean 0 harguments).bind fun es hes => .call .identifier hes
  | .group (.group _ :: _) | .group (.number _ :: _) | .group (.string _ :: _)
  | .group (.boolean _ :: _) =>
    rw [resolve] <;> first | trivial | simp
termination_by 2 * sizeOf f

theorem resolveSpecial_clean {t : SymbolTable} {site : Option Site} (k : Keyword)
    {parts : List Form} (hparts : ∀ f ∈ parts, f.Clean) :
    Yields Expr.Clean (fun _ => True) (resolveSpecial t site k parts) := by
  match k with
  | .define | .defineStruct | .checkExpect | .elseClause =>
    rw [resolveSpecial]
    trivial
  | .quote =>
    rw [resolveSpecial]
    exact quotation_clean parts
  | .lambda =>
    cases site with
    | none =>
      rw [resolveSpecial]
      trivial
    | some s =>
      cases hl : lambdaParts parts with
      | error e =>
        rw [resolveSpecial_lambda_error hl]
        trivial
      | ok p =>
        obtain ⟨params, body⟩ := p
        have hsize := sizeOf_of_lambdaParts hl
        rw [resolveSpecial_lambda hl]
        have hbody := hparts body (mem_of_lambdaParts hl)
        exact (resolve_clean hbody).bind fun e he => .lambda he
  | .ifElse =>
    match parts with
    | [question, answer, otherwise] =>
      rw [resolveSpecial]
      refine (resolve_clean (hparts question (by simp))).bind fun q hq => ?_
      refine (resolve_clean (hparts answer (by simp))).bind fun a ha => ?_
      refine (resolve_clean (hparts otherwise (by simp))).bind fun o ho => ?_
      exact .branch hq ha (by rintro _ ⟨⟩; exact ho)
    | [] | [_] | [_, _] | _ :: _ :: _ :: _ :: _ =>
      rw [resolveSpecial]
      · trivial
      · simp
  | .cond =>
    match parts with
    | [] =>
      rw [resolveSpecial]
      trivial
    | clause :: clauses =>
      rw [resolveSpecial_cond (List.cons_ne_nil _ _)]
      refine (resolveClauses_clean 0 hparts).bind fun r hr => ?_
      obtain ⟨cs, otherwise⟩ := r
      dsimp only
      split
      · exact .cond hr.1 hr.2 ‹_›
      · trivial
  | .conjunction =>
    rw [resolveSpecial]
    split
    · exact (resolveAll_clean 0 hparts).map fun es hes => .conjunction hes
    · trivial
  | .disjunction =>
    rw [resolveSpecial]
    split
    · exact (resolveAll_clean 0 hparts).map fun es hes => .disjunction hes
    · trivial
termination_by 2 * sizeOf parts + 1

theorem resolveAll_clean {t : SymbolTable} {site : Option Site} (i : Nat) {fs : List Form}
    (hfs : ∀ f ∈ fs, f.Clean) :
    Yields (fun es => ∀ e ∈ es, e.Clean) (fun _ => True) (resolveAll t site i fs) := by
  match fs with
  | [] =>
    rw [resolveAll]
    exact fun e he => by simp at he
  | f :: rest =>
    obtain ⟨hf, hrest⟩ := List.forall_mem_cons.mp hfs
    rw [resolveAll]
    refine (resolve_clean hf).bind fun e he => ?_
    exact (resolveAll_clean (i + 1) hrest).bind fun es hes => List.forall_mem_cons.mpr ⟨he, hes⟩
termination_by 2 * sizeOf fs

theorem resolveClauses_clean {t : SymbolTable} {site : Option Site} (i : Nat)
    {clauses : List Form} (hclauses : ∀ f ∈ clauses, f.Clean) :
    Yields
      (fun r => (∀ c ∈ r.1, c.1.Clean ∧ c.2.Clean) ∧ ∀ e, r.2 = some e → e.Clean)
      (fun _ => True) (resolveClauses t site i clauses) := by
  match clauses with
  | [] =>
    rw [resolveClauses]
    exact ⟨by simp, by simp⟩
  | .group [question, answer] :: rest =>
    obtain ⟨hclause, hrest⟩ := List.forall_mem_cons.mp hclauses
    have hanswer := hclause.items answer (by simp)
    by_cases hq : question = .keyword .elseClause
    · subst hq
      rw [resolveClauses]
      split
      · refine (resolve_clean hanswer).bind fun a ha => ?_
        exact ⟨by simp, by rintro _ ⟨⟩; exact ha⟩
      · trivial
    · rw [resolveClauses_question hq]
      refine (resolve_clean (hclause.items question (by simp))).bind fun q hq => ?_
      refine (resolve_clean hanswer).bind fun a ha => ?_
      refine (resolveClauses_clean (i + 1) hrest).bind fun r hr => ?_
      exact ⟨List.forall_mem_cons.mpr ⟨⟨hq, ha⟩, hr.1⟩, hr.2⟩
  | .group [] :: _ | .group [_] :: _ | .group (_ :: _ :: _ :: _) :: _ | .name _ :: _
  | .keyword _ :: _ | .number _ :: _ | .string _ :: _ | .boolean _ :: _ =>
    rw [resolveClauses]
    · trivial
    all_goals simp
termination_by 2 * sizeOf clauses

end

theorem clean_of_resolve {f : Form} {e : Expr} (hf : f.Clean) (h : f.resolve t site = .ok e) :
    e.Clean := by
  have hclean : Yields Expr.Clean (fun _ => True) (f.resolve t site) := resolve_clean hf
  rwa [h] at hclean

end Form

/-! ### Definitions and programs -/

namespace Definition

def Clean : Definition → Prop
  | .value _ f => f.Clean
  | .function _ _ body => body.Clean
  | .struct s _ => Token.Undelimited s.toList

variable {t u : SymbolTable} {d : Definition} {parts : List Form}

theorem ofValue_clean {s : String} {f : Form} (hf : f.Clean) (h : ofValue s f = .ok d) :
    d.Clean := by
  unfold ofValue at h
  split at h
  · obtain ⟨⟨params, body⟩, hbody, h⟩ := bind_ok.mp h
    cases h
    exact hf.items body (List.mem_cons_of_mem _ (Form.mem_of_lambdaParts hbody))
  · cases h
    exact hf

theorem ofDefine_clean (hparts : ∀ f ∈ parts, f.Clean) (h : ofDefine t parts = .ok d) :
    d.Clean := by
  unfold ofDefine at h
  split at h
  · obtain ⟨_, -, h⟩ := bind_ok.mp h
    obtain ⟨f, hf, h⟩ := bind_ok.mp h
    exact ofValue_clean (hparts f (List.mem_cons_of_mem _ (mem_of_soleValue hf))) h
  · obtain ⟨_, -, h⟩ := bind_ok.mp h
    obtain ⟨⟨params, body⟩, hbody, h⟩ := bind_ok.mp h
    cases h
    obtain ⟨-, -, -, rfl⟩ := Form.functionParts_iff.mp hbody
    exact hparts body (List.mem_cons_of_mem _ (List.mem_singleton_self body))
  · cases h
  · cases h

theorem ofDefineStruct_clean (hparts : ∀ f ∈ parts, f.Clean) (h : ofDefineStruct parts = .ok d) :
    d.Clean := by
  unfold ofDefineStruct at h
  split at h
  · next s fields extra =>
    obtain ⟨fields', -, h⟩ := bind_ok.mp h
    split at h
    · cases h
      cases hparts (.name s) List.mem_cons_self with
      | name hs => exact hs
    · cases h
  · cases h
  · cases h

theorem resolve_clean {e : Expr} (hd : d.Clean) (h : d.resolve t = (u, .ok e)) : e.Clean := by
  cases d with
  | value s f =>
    rw [resolve] at h
    split at h
    · cases h
    · next hok =>
      cases h
      exact .define (Form.clean_of_resolve hd hok)
  | function s params body =>
    obtain ⟨rfl, hbody⟩ := Prod.mk.inj h
    obtain ⟨b, hb, rfl⟩ := map_ok.mp hbody
    exact .define (.lambda (Form.clean_of_resolve hd hb))
  | struct s fields =>
    rcases hd : t.declare (structNames s fields) with ⟨v, e' | ⟨⟨⟩⟩⟩
    · simp [resolve, hd, Except.map] at h
    · simp only [resolve, hd, Except.map, Prod.mk.injEq, Except.ok.injEq] at h
      obtain ⟨rfl, rfl⟩ := h
      exact .defineStruct ‹_›

end Definition

namespace SymbolTable

variable {t u : SymbolTable}

theorem resolveForm_clean {f : Form} {e : Expr} (hf : f.Clean)
    (h : t.resolveForm f = (u, .ok e)) : e.Clean := by
  unfold resolveForm at h
  split at h
  · split at h
    · cases h
    · next hd =>
      have hparts := (List.forall_mem_cons.mp hf.items).2
      exact Definition.resolve_clean (Definition.ofDefine_clean hparts hd) h
  · split at h
    · cases h
    · next hd =>
      have hparts := (List.forall_mem_cons.mp hf.items).2
      exact Definition.resolve_clean (Definition.ofDefineStruct_clean hparts hd) h
  · obtain ⟨rfl, he⟩ := Prod.mk.inj h
    exact Form.clean_of_resolve hf he

theorem resolveForms_clean {fs : List Form} {p : SplitProgram} (hfs : ∀ f ∈ fs, f.Clean)
    (h : t.resolveForms fs = (u, .ok p)) :
    (∀ e ∈ p.forms, e.Clean) ∧ ∀ test ∈ p.tests, test.1.Clean ∧ test.2.Clean := by
  fun_induction resolveForms t fs generalizing p with
  | case1 t =>
    cases h
    simp
  | case2 | case4 => simp at h
  | case3 t parts fs test htest v r hr ih =>
    obtain ⟨hclean, hrest⟩ := List.forall_mem_cons.mp hfs
    obtain ⟨rfl, hp⟩ := Prod.mk.inj h
    obtain ⟨q, rfl, rfl⟩ := map_ok.mp hp
    obtain ⟨hforms, htests⟩ := ih hrest hr
    have hparts := (List.forall_mem_cons.mp hclean.items).2
    refine ⟨hforms, List.forall_mem_cons.mpr ⟨?_, htests⟩⟩
    unfold testParts at htest
    split at htest
    · cases htest
      exact ⟨hparts _ (by simp), hparts _ (by simp)⟩
    · cases htest
  | case5 t f fs _ v e hf w r hr ih =>
    obtain ⟨hclean, hrest⟩ := List.forall_mem_cons.mp hfs
    obtain ⟨rfl, hp⟩ := Prod.mk.inj h
    obtain ⟨q, rfl, rfl⟩ := map_ok.mp hp
    obtain ⟨hforms, htests⟩ := ih hrest hr
    exact ⟨List.forall_mem_cons.mpr ⟨resolveForm_clean hclean hf, hforms⟩, htests⟩

theorem resolveTest_clean {test : Form × Form} {c : TestCase}
    (htest : test.1.Clean ∧ test.2.Clean) (h : t.resolveTest test = .ok c) :
    c.actual.Clean ∧ c.expected.Clean := by
  obtain ⟨actual, hactual, h⟩ := bind_ok.mp h
  obtain ⟨expected, hexpected, h⟩ := bind_ok.mp h
  cases h
  exact ⟨Form.clean_of_resolve htest.1 hactual, Form.clean_of_resolve htest.2 hexpected⟩

theorem resolveProgram_clean {fs : List Form} {p : Program} (hfs : ∀ f ∈ fs, f.Clean)
    (h : t.resolveProgram fs = (u, .ok p)) :
    (∀ e ∈ p.forms, e.Clean) ∧ ∀ c ∈ p.tests, c.actual.Clean ∧ c.expected.Clean := by
  unfold resolveProgram at h
  rcases hf : t.resolveForms fs with ⟨v, e | q⟩
  · simp [hf] at h
  · rw [hf] at h
    obtain ⟨rfl, hp⟩ := Prod.mk.inj h
    obtain ⟨tests, htests, rfl⟩ := map_ok.mp hp
    obtain ⟨hforms, hsplit⟩ := resolveForms_clean hfs hf
    refine ⟨hforms, fun c hc => ?_⟩
    obtain ⟨test, htest, hresolve⟩ := mem_of_mapM_ok htests hc
    exact resolveTest_clean (hsplit test htest) hresolve

end SymbolTable
end BeginningStudent
