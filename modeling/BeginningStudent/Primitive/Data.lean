import BeginningStudent.Primitive.Argument
import BeginningStudent.Numeric.Literal
import BeginningStudent.Text
import BeginningStudent.Value.Equality

/-!
# Primitives on other data than numbers

Strings are sequences of characters. Their length and their indices count characters, and they
are ordered by the code points of their characters.

Lists are made by `cons` and `list` alone, and `cons` takes only a list as the rest, so every pair
that a program makes begins a proper list.
-/

namespace BeginningStudent.Operation

/-! ### Booleans -/

def negation (v : Value) : Except Fault Value := (fun b => .boolean !b) <$> Argument.boolean v

def booleanEq (a b : Value) : Except Fault Value := Argument.chain Argument.boolean (· == ·) a [b]

/-! ### Strings -/

def stringLength (v : Value) : Except Fault Value :=
  (fun s => .number (.ofInt s.length)) <$> Argument.string v

def stringAppend (vs : List Value) : Except Fault Value :=
  .string <$> vs.foldlM (fun s v => (s ++ ·) <$> Argument.string v) ""

def stringEq (first second : Value) (others : List Value) : Except Fault Value :=
  Argument.chain Argument.string (· == ·) first (second :: others)

def stringLess (first second : Value) (others : List Value) : Except Fault Value :=
  Argument.chain Argument.string (fun a b => a < b) first (second :: others)

/-- The characters from index `i` up to, but not including, index `j`. -/
def slice (cs : List Char) (i j : Nat) : Except Fault (List Char) :=
  if cs.length < i then .error (.startOutOfRange i)
  else if j < i ∨ cs.length < j then .error (.endOutOfRange j)
  else .ok ((cs.drop i).take (j - i))

def substring (text start : Value) (others : List Value) : Except Fault Value :=
  match others with
  | [] => do
    let cs := (← Argument.string text).toList
    let i ← Argument.natural start
    return .string (String.ofList (← slice cs i cs.length))
  | [stop] => do
    let cs := (← Argument.string text).toList
    let i ← Argument.natural start
    let j ← Argument.natural stop
    return .string (String.ofList (← slice cs i j))
  | _ => .error (.arity (.exactly 3) (others.length + 2))

def stringToNumber (v : Value) : Except Fault Value :=
  (fun s => match Literal.number? s.toList with
    | some (.ok z) => .number z
    | _ => .boolean false) <$> Argument.string v

def onCharacters (f : List Char → List Char) (v : Value) : Except Fault Value :=
  (fun s => .string (String.ofList (f s.toList))) <$> Argument.string v

/-! ### Symbols -/

def stringToSymbol (v : Value) : Except Fault Value := .symbol <$> Argument.string v

def symbolToString (v : Value) : Except Fault Value := .string <$> Argument.symbol v

def symbolEq (a b : Value) : Except Fault Value := Argument.chain Argument.symbol (· == ·) a [b]

/-! ### Lists -/

def cons (first rest : Value) : Except Fault Value :=
  if rest.isList then .ok (.pair first rest) else .error (.notList first rest)

def first (v : Value) : Except Fault Value := Prod.fst <$> Argument.nonEmptyList v

def rest (v : Value) : Except Fault Value := Prod.snd <$> Argument.nonEmptyList v

def isEmpty (v : Value) : Except Fault Value :=
  .ok (.boolean (match v with | .empty => true | _ => false))

def list (vs : List Value) : Except Fault Value := .ok (.ofList vs)

def isList (v : Value) : Except Fault Value := .ok (.boolean v.isList)

def length (v : Value) : Except Fault Value :=
  if v.isList then .ok (.number (.ofInt (v.lengthOnto 0))) else .error (.expected .list v)

/-! ### All values -/

def equal (a b : Value) : Except Fault Value := .ok (.boolean (a.equal b))

end BeginningStudent.Operation
