import BeginningStudent.Proofs.Lexemes
import BeginningStudent.Proofs.RoundTrip
import BeginningStudent.Report

/-!
# Quoted names

A name or keyword behind a quote mark and in a `quote` form is read as the same form, the quotation
of a name, and its value is shown as a quote mark and that name (`run_quotation`). The name is the
text that was quoted, except for the letter `λ`: scanning takes it for the keyword `lambda`, and the
symbol has the name of this keyword.
-/

namespace BeginningStudent

namespace Token

def symbol? : Token → Option String
  | .name s => some s
  | .keyword k => some k.name
  | _ => none

variable {a s : String} {t : Token} {rest : List Char}

theorem Lexeme.word_of_symbol? (h : Lexeme a.toList t rest) (hs : t.symbol? = some s) :
    a.toList ≠ [] ∧ Undelimited a.toList ∧ ofWord a.toList = .ok t := by
  generalize a.toList = word at h
  cases h with
  | word hne hword ht _ => exact ⟨hne, hword, ht⟩
  | _ => cases hs

theorem ofName?_of_ofWord {word : List Char} {k : Keyword} (h : ofWord word = .ok (.keyword k)) :
    Keyword.ofName? (String.ofList word) = some k := by
  unfold ofWord at h
  dsimp only at h
  split at h
  any_goals cases h
  split at h
  any_goals cases h
  split at h
  · cases h
  · split at h
    · next hk =>
      cases h
      exact hk
    · cases h

/-- The symbol of a quoted word is the word itself, unless that is the letter `λ`. -/
theorem symbol?_of_ofWord (h : ofWord a.toList = .ok t) (hs : t.symbol? = some s) :
    s = if a = "λ" then "lambda" else a := by
  have hletter : ofWord "λ".toList = .ok (.keyword .lambda) := rfl
  cases t with
  | name n =>
    cases hs
    have hne : a ≠ "λ" := by
      rintro rfl
      cases hletter.symm.trans h
    rw [if_neg hne, String.toList_inj.mp (toList_of_ofWord h)]
  | keyword k =>
    cases hs
    have hk : Keyword.ofName? a = some k := by
      rw [← ofName?_of_ofWord h, String.ofList_toList]
    by_cases ha : a = "λ"
    · subst ha
      cases hk
      rfl
    · rw [if_neg ha]
      exact ((keyword_spelling hk).resolve_right ha).symm
  | _ => cases hs

end Token

namespace Form

variable {t : Token} {s : String}

theorem read_quote_mark (hs : t.symbol? = some s) :
    read [.quote, t] = .ok [(Form.name s).quoted] := by
  cases t with
  | name | keyword => cases hs; rfl
  | _ => cases hs

theorem read_quote_form (hs : t.symbol? = some s) :
    read [.opening .round, .keyword .quote, t, .closing .round] = .ok [(Form.name s).quoted] := by
  cases t with
  | name | keyword => cases hs; rfl
  | _ => cases hs

end Form

section Sources

open Token

variable {a s : String} {t : Token}

theorem ofSource_quote_mark (ha : Lexeme a.toList t []) (hs : t.symbol? = some s) :
    ofSource ("'" ++ a) = .ok [.quote, t] := by
  obtain ⟨hne, hword, ht⟩ := ha.word_of_symbol? hs
  have hscan := scan_word hne hword ht endsWord_nil
  rw [List.append_nil, scan_nil] at hscan
  refine ofSource_of_scan ?_
  rw [String.toList_append]
  refine (scan_quote a.toList).trans ?_
  rw [hscan]

theorem ofSource_quote_form (ha : Lexeme a.toList t []) (hs : t.symbol? = some s) :
    ofSource ("(quote " ++ a ++ ")") = .ok [.opening .round, .keyword .quote, t, .closing .round] := by
  obtain ⟨hne, hword, ht⟩ := ha.word_of_symbol? hs
  have hhead : ∀ x, scan ("quote".toList ++ ' ' :: x) = (.keyword .quote :: (scan x).1, (scan x).2) := by
    intro x
    have hspace : EndsWord (' ' :: x) := endsWord_cons (by decide) x
    rw [scan_word (by decide) (by decide) rfl hspace, scan_space]
  have hname : scan (a.toList ++ [')']) = ([t, .closing .round], none) := by
    rw [scan_word hne hword ht (endsWord_cons (by decide) [])]
    have hclosing := scan_closing .round []
    rw [scan_nil] at hclosing
    change scan [')'] = _ at hclosing
    rw [hclosing]
  refine ofSource_of_scan ?_
  have hshape : ("(quote " ++ a ++ ")").toList =
      '(' :: ("quote".toList ++ ' ' :: (a.toList ++ [')'])) := by
    simp
  rw [hshape]
  refine (scan_opening .round _).trans ?_
  rw [hhead, hname]

theorem run_quoted_name {source : String} (hread : readSource source = .ok [(Form.name s).quoted])
    (maxDepth : Nat) : (run source maxDepth).lines = ["'" ++ s] := by
  have hmakes : Makes (Session.start maxDepth).names (Session.start maxDepth).interpreter
      (Form.name s).quoted (.symbol s) := makes_quoted (.symbol s) rfl
  have hhead : ∀ k ∈ (Form.name s).quoted.headKeyword?, k = .quote := by
    rintro k ⟨⟩
    rfl
  rw [run, Session.step_expression (Session.start_consistent maxDepth) hread hhead hmakes]
  have htext : (Value.symbol s).text = "'" ++ s := by
    rw [← String.toList_inj, Value.text_symbol, String.toList_append]
    rfl
  change [(Value.symbol s).text] = _
  rw [htext]

end Sources

/-- A text that is one name or keyword, and nothing else, is read as the same form behind a quote
mark and in a `quote` form. Both are shown as a quote mark and the text, or as `'lambda` where the
text is the letter `λ`. -/
theorem run_quotation {a s : String} {t : Token} (ha : Token.Lexeme a.toList t [])
    (hs : t.symbol? = some s) :
    Token.ofSource a = .ok [t] ∧
    readSource ("'" ++ a) = .ok [(Form.name s).quoted] ∧
    readSource ("(quote " ++ a ++ ")") = .ok [(Form.name s).quoted] ∧
    (∀ maxDepth, (run ("'" ++ a) maxDepth).lines = ["'" ++ s] ∧
      (run ("(quote " ++ a ++ ")") maxDepth).lines = ["'" ++ s]) ∧
    s = if a = "λ" then "lambda" else a := by
  obtain ⟨-, -, hword⟩ := ha.word_of_symbol? hs
  have hmark : readSource ("'" ++ a) = .ok [(Form.name s).quoted] :=
    readSource_ok.mpr ⟨_, ofSource_quote_mark ha hs, Form.read_quote_mark hs⟩
  have hform : readSource ("(quote " ++ a ++ ")") = .ok [(Form.name s).quoted] :=
    readSource_ok.mpr ⟨_, ofSource_quote_form ha hs, Form.read_quote_form hs⟩
  have hscan : Token.scan a.toList = ([t], none) := by
    have h := Token.scan_lexeme ha
    rwa [List.append_nil, Token.scan_nil] at h
  exact ⟨Token.ofSource_of_scan hscan, hmark, hform,
    fun maxDepth => ⟨run_quoted_name hmark maxDepth, run_quoted_name hform maxDepth⟩,
    Token.symbol?_of_ofWord hword hs⟩

/-- A keyword that is quoted. -/
theorem run_quotation_else : (run "'else" 10).lines = ["'else"] ∧
    (run "(quote else)" 10).lines = ["'else"] := by
  have hword : Token.Lexeme "else".toList (.keyword .elseClause) [] :=
    .word (by decide) (by decide) rfl Token.endsWord_nil
  obtain ⟨-, -, -, hruns, -⟩ := run_quotation hword rfl
  exact hruns 10

/-- The letter `λ` is a keyword of one letter, and its symbol has another name. -/
theorem run_quotation_letter : Token.Lexeme "λ".toList (.keyword .lambda) [] ∧
    (run "'λ" 10).lines = ["'lambda"] ∧ (run "(quote λ)" 10).lines = ["'lambda"] ∧
    (run "'λ" 10).lines ≠ ["'λ"] := by
  refine ⟨.word (by decide) (by decide) rfl Token.endsWord_nil, ?_⟩
  decide +kernel

end BeginningStudent
