import BeginningStudent.Token

/-!
# Forms

The tree structure of a program, before any of its names are looked up: groups in brackets, names,
keywords and literals. All families of brackets make the same groups, and a quote mark makes the
group of the keyword `quote` and the quoted form.

`flatten` writes a form as tokens, with round brackets and without quote marks. A form is
`WellPlaced` when keywords stand only at the heads of groups.
-/

namespace BeginningStudent

inductive Form where
  | group (items : List Form)
  | name (s : String)
  | keyword (k : Keyword)
  | number (n : Number)
  | string (s : String)
  | boolean (b : Bool)

namespace Form

def noun : Form → String
  | .group _ => "part"
  | .name _ => "variable"
  | .keyword _ => "keyword"
  | .number _ => "number"
  | .string _ => "string"
  | .boolean _ => "boolean"

def headKeyword? : Form → Option Keyword
  | .group (.keyword k :: _) => some k
  | _ => none

def quoted (f : Form) : Form := .group [.keyword .quote, f]

mutual

def flatten : Form → List Token
  | .group items => .opening .round :: (flattenAll items ++ [.closing .round])
  | .name s => [.name s]
  | .keyword k => [.keyword k]
  | .number n => [.number n]
  | .string s => [.string s]
  | .boolean b => [.boolean b]

def flattenAll : List Form → List Token
  | [] => []
  | f :: fs => f.flatten ++ flattenAll fs

end

theorem flattenAll_append (fs gs : List Form) :
    flattenAll (fs ++ gs) = flattenAll fs ++ flattenAll gs := by
  induction fs with
  | nil => simp [flattenAll]
  | cons f fs ih => simp [flattenAll, ih]

mutual

/-- Do keywords stand only at the heads of groups? -/
def wellPlaced : Form → Bool
  | .group items => wellPlacedItems items
  | .keyword _ => false
  | _ => true

def wellPlacedItems : List Form → Bool
  | [] => true
  | .keyword _ :: fs => wellPlacedAll fs
  | f :: fs => f.wellPlaced && wellPlacedAll fs

def wellPlacedAll : List Form → Bool
  | [] => true
  | f :: fs => f.wellPlaced && wellPlacedAll fs

end

end Form
end BeginningStudent
