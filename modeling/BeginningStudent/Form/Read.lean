import BeginningStudent.Form

/-!
# Reading

The forms of a list of tokens. Reading is a fold over the tokens: its state holds the forms that
are complete and, from the innermost outward, the groups and quotes that still wait for more. So
reading a text in two pieces is reading its first piece and then its second from the state reached
(`readOnto_append`).
-/

namespace BeginningStudent

inductive ReadError where
  | unexpectedClosing (b : Bracket)
  /-- A bracket that closes a group of another family. -/
  | mismatched (opened found : Bracket)
  | unclosed (b : Bracket)
  | unfinishedQuote
  | misplacedKeyword (k : Keyword)
deriving DecidableEq, Repr

namespace ReadError

def message : ReadError → String
  | .unexpectedClosing b => "read-syntax: unexpected `" ++ String.singleton b.closing ++ "`"
  | .mismatched opened found =>
    "read-syntax: expected `" ++ String.singleton opened.closing ++ "` to close preceding `" ++
      String.singleton opened.opening ++ "`, found instead `" ++
      String.singleton found.closing ++ "`"
  | .unclosed b =>
    "read-syntax: expected a `" ++ String.singleton b.closing ++ "` to close `" ++
      String.singleton b.opening ++ "`"
  | .unfinishedQuote => "read-syntax: expected an element for quoting \"'\", found end-of-file"
  | .misplacedKeyword k =>
    k.name ++ ": expected an open parenthesis before " ++ k.name ++ ", but found none"

end ReadError

namespace Form

/-- Something that has begun and waits for more tokens. -/
inductive Pending where
  /-- A group and its items so far, from the end. -/
  | group (b : Bracket) (items : List Form)
  /-- A quote mark that waits for the form to quote. -/
  | quote

/-- How far reading has come: the complete forms, from the end, and what is pending around the
place reached, the innermost first. -/
structure ReadState where
  done : List Form
  pending : List Pending

namespace ReadState

def start : ReadState := ⟨[], []⟩

/-- A form is complete. It goes to the innermost group, by way of the quotes that wait for it. -/
def push (done : List Form) (f : Form) : List Pending → ReadState
  | [] => ⟨f :: done, []⟩
  | .quote :: outer => push done f.quoted outer
  | .group b items :: outer => ⟨done, .group b (f :: items) :: outer⟩

/-- What becomes of a keyword at this place: it heads a group, or it is the symbol of its name
right behind a quote mark or behind the keyword `quote` at the head of a group. -/
def keywordForm? (k : Keyword) : List Pending → Option Form
  | .quote :: _ => some (.name k.name)
  | .group _ [] :: _ => some (.keyword k)
  | .group _ [.keyword .quote] :: _ => some (.name k.name)
  | _ => none

def close (s : ReadState) (b : Bracket) : Except ReadError ReadState :=
  match s.pending with
  | .group opened items :: outer =>
    if opened = b then .ok (push s.done (.group items.reverse) outer)
    else .error (.mismatched opened b)
  | _ => .error (.unexpectedClosing b)

def step (s : ReadState) : Token → Except ReadError ReadState
  | .opening b => .ok { s with pending := .group b [] :: s.pending }
  | .closing b => s.close b
  | .quote => .ok { s with pending := .quote :: s.pending }
  | .name n => .ok (push s.done (.name n) s.pending)
  | .number n => .ok (push s.done (.number n) s.pending)
  | .string t => .ok (push s.done (.string t) s.pending)
  | .boolean b => .ok (push s.done (.boolean b) s.pending)
  | .keyword k =>
    match keywordForm? k s.pending with
    | some f => .ok (push s.done f s.pending)
    | none => .error (.misplacedKeyword k)

def finish (s : ReadState) : Except ReadError (List Form) :=
  match s.pending with
  | [] => .ok s.done.reverse
  | .group b _ :: _ => .error (.unclosed b)
  | .quote :: _ => .error .unfinishedQuote

end ReadState

def readOnto (s : ReadState) (ts : List Token) : Except ReadError ReadState :=
  ts.foldlM ReadState.step s

theorem readOnto_append (s : ReadState) (ts us : List Token) :
    readOnto s (ts ++ us) = readOnto s ts >>= (readOnto · us) :=
  List.foldlM_append

def read (ts : List Token) : Except ReadError (List Form) :=
  readOnto .start ts >>= ReadState.finish

end Form
end BeginningStudent
