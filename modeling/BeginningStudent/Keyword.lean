/-!
# Keywords

The names that head the special forms of the language. A keyword can not be used as a name.
-/

namespace BeginningStudent

inductive Keyword where
  | define
  | defineStruct
  | lambda
  | quote
  | checkExpect
  | ifElse
  | cond
  | elseClause
  | conjunction
  | disjunction
deriving DecidableEq, Repr

namespace Keyword

def name : Keyword → String
  | .define => "define"
  | .defineStruct => "define-struct"
  | .lambda => "lambda"
  | .quote => "quote"
  | .checkExpect => "check-expect"
  | .ifElse => "if"
  | .cond => "cond"
  | .elseClause => "else"
  | .conjunction => "and"
  | .disjunction => "or"

/-- The keyword of a name. The letter `λ` is a second name of `lambda`. -/
def ofName? : String → Option Keyword
  | "define" => some .define
  | "define-struct" => some .defineStruct
  | "lambda" | "λ" => some .lambda
  | "quote" => some .quote
  | "check-expect" => some .checkExpect
  | "if" => some .ifElse
  | "cond" => some .cond
  | "else" => some .elseClause
  | "and" => some .conjunction
  | "or" => some .disjunction
  | _ => none

end Keyword
end BeginningStudent
