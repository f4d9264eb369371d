import BeginningStudent.Keyword
import BeginningStudent.Numeric.Number

/-!
# Tokens

The smallest parts of a program that carry meaning. Blanks and comments are not tokens.
-/

namespace BeginningStudent

/-- The three families of brackets, which group alike but do not close each other. -/
inductive Bracket where
  | round
  | square
  | curly
deriving DecidableEq, Repr

namespace Bracket

def opening : Bracket → Char
  | .round => '('
  | .square => '['
  | .curly => '\x7b'

def closing : Bracket → Char
  | .round => ')'
  | .square => ']'
  | .curly => '\x7d'

def ofOpening? (c : Char) : Option Bracket :=
  if c = '(' then some .round else if c = '[' then some .square
  else if c = '\x7b' then some .curly else none

def ofClosing? (c : Char) : Option Bracket :=
  if c = ')' then some .round else if c = ']' then some .square
  else if c = '\x7d' then some .curly else none

theorem ofOpening?_opening (b : Bracket) : ofOpening? b.opening = some b := by cases b <;> rfl

theorem ofClosing?_closing (b : Bracket) : ofClosing? b.closing = some b := by cases b <;> rfl

end Bracket

inductive Token where
  | opening (b : Bracket)
  | closing (b : Bracket)
  | quote
  | name (s : String)
  | keyword (k : Keyword)
  | number (n : Number)
  | string (s : String)
  | boolean (b : Bool)
deriving DecidableEq

end BeginningStudent
