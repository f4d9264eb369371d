import BeginningStudent.Token
import BeginningStudent.Numeric.Literal
import BeginningStudent.Text

/-!
# Scanning

The tokens of a source text. Blanks and comments stand between tokens: a line comment runs from
`;` to the end of its line, a block comment from `#|` to the matching `|#` and nests. A name or
number runs up to the next delimiter.

`scan` gives the tokens up to the first error. Each step leaves a shorter text
(`next_length_le`, `skipBlanks_length_le`), so it ends.
-/

namespace BeginningStudent

inductive ScanError where
  | unclosedComment
  | unclosedString
  | unknownEscape (c : Char)
  /-- A character or word that begins no token. -/
  | badText (s : String)
  /-- A number with the denominator zero. -/
  | zeroDenominator (s : String)
  /-- A number that is marked exact and has no exact value. -/
  | noExactValue (s : String)
deriving DecidableEq, Repr

namespace ScanError

def detail : ScanError → String
  | .unclosedComment => "end of file in `#|` comment"
  | .unclosedString => "expected a closing `\"`"
  | .unknownEscape c => "unknown escape sequence `\\" ++ String.singleton c ++ "` in string"
  | .badText s => "bad syntax `" ++ s ++ "`"
  | .zeroDenominator s => "division by zero in `" ++ s ++ "`"
  | .noExactValue s => "no exact representation for `" ++ s ++ "`"

def message (e : ScanError) : String := "read-syntax: " ++ e.detail

end ScanError

namespace Token

/-! ### Between tokens -/

def dropLine : List Char → List Char
  | [] => []
  | c :: rest => if c = '\n' then rest else dropLine rest

theorem dropLine_length_le (s : List Char) : (dropLine s).length ≤ s.length := by
  induction s with
  | nil => simp [dropLine]
  | cons c rest ih =>
    unfold dropLine
    split
    · simp
    · simp; omega

/-- The text behind `depth` nested block comments, the innermost of which begins it. -/
def dropComments : Nat → List Char → Option (List Char)
  | 0, s => some s
  | depth + 1, '|' :: '#' :: rest => dropComments depth rest
  | depth + 1, '#' :: '|' :: rest => dropComments (depth + 2) rest
  | depth + 1, _ :: rest => dropComments (depth + 1) rest
  | _ + 1, [] => none

theorem dropComments_length_le {depth : Nat} {s rest : List Char}
    (h : dropComments depth s = some rest) : rest.length ≤ s.length := by
  fun_induction dropComments depth s with
  | case1 s => simp_all
  | case2 depth s ih => have := ih h; simp; omega
  | case3 depth s ih => have := ih h; simp; omega
  | case4 depth c s _ _ ih => have := ih h; simp; omega
  | case5 => simp at h

def skipBlanks : List Char → Except ScanError (List Char)
  | [] => .ok []
  | ';' :: rest => skipBlanks (dropLine rest)
  | '#' :: '|' :: rest =>
    match _ : dropComments 1 rest with
    | some rest' => skipBlanks rest'
    | none => .error .unclosedComment
  | c :: rest => if Text.isBlank c then skipBlanks rest else .ok (c :: rest)
termination_by s => s.length
decreasing_by
  · have := dropLine_length_le rest; simp; omega
  · have := dropComments_length_le ‹_›; simp; omega
  · simp

theorem skipBlanks_length_le {s rest : List Char} (h : skipBlanks s = .ok rest) :
    rest.length ≤ s.length := by
  fun_induction skipBlanks s with
  | case1 => simp_all
  | case2 s ih => have := ih h; have := dropLine_length_le s; simp; omega
  | case3 s s' h' ih => have := ih h; have := dropComments_length_le h'; simp; omega
  | case4 => simp at h
  | case5 c s _ _ _ ih => have := ih h; simp; omega
  | case6 c s _ _ _ => simp only [Except.ok.injEq] at h; subst h; simp

/-! ### Strings -/

def escaped? : Char → Option Char
  | 'n' => some '\n'
  | 't' => some '\t'
  | 'r' => some '\r'
  | 'a' => some '\x07'
  | 'b' => some '\x08'
  | 'v' => some '\x0b'
  | 'f' => some '\x0c'
  | 'e' => some '\x1b'
  | '0' => some '\x00'
  | '"' => some '"'
  | '\'' => some '\''
  | '\\' => some '\\'
  | _ => none

/-- The contents of a string behind its opening quote and the text behind its closing quote. The
contents read so far are `before`, from the end. A backslash at the end of a line joins the line
with the next. -/
def stringContents (before : List Char) : List Char → Except ScanError (List Char × List Char)
  | [] => .error .unclosedString
  | '"' :: rest => .ok (before.reverse, rest)
  | ['\\'] => .error .unclosedString
  | '\\' :: '\n' :: rest => stringContents before rest
  | '\\' :: c :: rest =>
    match escaped? c with
    | some d => stringContents (d :: before) rest
    | none => .error (.unknownEscape c)
  | c :: rest => stringContents (c :: before) rest

theorem stringContents_length_le {before s contents rest : List Char}
    (h : stringContents before s = .ok (contents, rest)) : rest.length ≤ s.length := by
  fun_induction stringContents before s with
  | case1 | case3 | case6 => simp at h
  | case2 before s => simp only [Except.ok.injEq, Prod.mk.injEq] at h; simp [h.2]
  | case4 before s ih => have := ih h; simp; omega
  | case5 before c s _ d _ ih => have := ih h; simp; omega
  | case7 before c s _ _ _ _ ih => have := ih h; simp; omega

/-! ### Names and numbers -/

def isDelimiter (c : Char) : Bool := Text.isBlank c || "()[]\x7b\x7d\"';`,".toList.contains c

def ofWord (word : List Char) : Except ScanError Token :=
  let s := String.ofList word
  match s with
  | "#t" | "#T" | "#true" => .ok (.boolean true)
  | "#f" | "#F" | "#false" => .ok (.boolean false)
  | _ =>
    match Literal.number? word with
    | some (.ok n) => .ok (.number n)
    | some (.error .divideByZero) => .error (.zeroDenominator s)
    | some (.error .noExactRepresentation) => .error (.noExactValue s)
    | none =>
      if word.head? = some '#' then .error (.badText s)
      else match Keyword.ofName? s with
        | some k => .ok (.keyword k)
        | none => .ok (.name s)

/-! ### Tokens -/

/-- The token that begins with `c` and goes on in `rest`, and the text behind it. -/
def next (c : Char) (rest : List Char) : Except ScanError (Token × List Char) :=
  match Bracket.ofOpening? c, Bracket.ofClosing? c with
  | some b, _ => .ok (.opening b, rest)
  | _, some b => .ok (.closing b, rest)
  | none, none =>
    if c = '\'' then .ok (.quote, rest)
    else if c = '"' then do
      let (contents, rest) ← stringContents [] rest
      return (.string (String.ofList contents), rest)
    else if c = '`' ∨ c = ',' then .error (.badText (String.singleton c))
    else do
      let t ← ofWord (c :: rest.takeWhile (!isDelimiter ·))
      return (t, rest.dropWhile (!isDelimiter ·))

theorem next_length_le {c : Char} {s rest : List Char} {t : Token}
    (h : next c s = .ok (t, rest)) : rest.length ≤ s.length := by
  unfold next at h
  split at h
  · simp_all
  · simp_all
  · split at h
    · simp_all
    split at h
    · cases hs : stringContents [] s with
      | error e => simp [hs, bind, Except.bind] at h
      | ok r =>
        simp only [hs, bind, Except.bind, pure, Except.pure, Except.ok.injEq, Prod.mk.injEq] at h
        exact h.2 ▸ stringContents_length_le hs
    split at h
    · simp at h
    · cases hw : ofWord (c :: s.takeWhile (!isDelimiter ·)) with
      | error e => simp [hw, bind, Except.bind] at h
      | ok t' =>
        simp only [hw, bind, Except.bind, pure, Except.pure, Except.ok.injEq, Prod.mk.injEq] at h
        rw [← h.2]
        exact (List.dropWhile_suffix _).length_le

def scan (s : List Char) : List Token × Option ScanError :=
  match _ : skipBlanks s with
  | .error e => ([], some e)
  | .ok [] => ([], none)
  | .ok (c :: rest) =>
    match _ : next c rest with
    | .error e => ([], some e)
    | .ok (t, rest') =>
      let (ts, e?) := scan rest'
      (t :: ts, e?)
termination_by s.length
decreasing_by
  have := skipBlanks_length_le ‹skipBlanks s = _›
  have := next_length_le ‹next c rest = _›
  simp at *; omega

def ofSource (source : String) : Except ScanError (List Token) :=
  match scan source.toList with
  | (ts, none) => .ok ts
  | (_, some e) => .error e

example : (ofSource "['a] ; rest").toOption =
    some [.opening .square, .quote, .name "a", .closing .square] := by decide +kernel
example : (scan "#| outer #| inner |# still |# x #q".toList) =
    ([.name "x"], some (.badText "#q")) := by decide +kernel

end Token
end BeginningStudent
