import BeginningStudent.Arity
import BeginningStudent.Form

/-!
# Errors of resolution

Why a form is no program of the language. Most errors say which part a special form expects and
what stands in its place.
-/

namespace BeginningStudent

inductive FormPart where
  | defineTarget
  | functionName
  | definedValue (name : String)
  | onlyDefinedValue (name : String)
  | functionVariables
  | lambdaVariables
  | lambdaVariablesGroup
  | variableName (form : Keyword)
  | body (form : Keyword)
  | onlyBody (form : Keyword)
  | structName
  | fieldNames
  | fieldName
  | nothingAfterFields
  | quotedPart
  | quotedName
  | ifParts
  | condClauses
  | clause
  | callee

def FormPart.text : FormPart → String
  | .defineTarget =>
    "define: expected a variable name, or a function name and its variables (in parentheses)"
  | .functionName => "define: expected the name of the function"
  | .definedValue name => "define: expected an expression after the variable name " ++ name
  | .onlyDefinedValue name =>
    "define: expected only one expression after the variable name " ++ name
  | .functionVariables => "define: expected at least one variable after the function name"
  | .lambdaVariables => "lambda: expected at least one variable after lambda"
  | .lambdaVariablesGroup =>
    "lambda: expected at least one variable (in parentheses) after lambda"
  | .variableName form => form.name ++ ": expected a variable"
  | .body form => form.name ++ ": expected an expression for the function body"
  | .onlyBody form => form.name ++ ": expected only one expression for the function body"
  | .structName => "define-struct: expected the structure name after define-struct"
  | .fieldNames =>
    "define-struct: expected at least one field name (in parentheses) after the structure name"
  | .fieldName => "define-struct: expected a field name"
  | .nothingAfterFields => "define-struct: expected nothing after the field names"
  | .quotedPart => "quote: expected a single part after quote"
  | .quotedName => "quote: expected a name or () after the quote"
  | .ifParts => "if: expected a question and two answers"
  | .condClauses => "cond: expected a clause after cond"
  | .clause => "cond: expected a clause with a question and an answer"
  | .callee => "function call: expected a function after the open parenthesis"

inductive Found where
  | nothing
  /-- One thing of the given kind. -/
  | one (noun : String)
  | noVariables
  | parts (n : Nat)
  | onlyParts (n : Nat)
  | extraParts (n : Nat)
  | emptyPart
  | clauseOf (n : Nat)
deriving DecidableEq, Repr

namespace Found

def text : Found → String
  | .nothing => "nothing's there"
  | .one noun => "found a " ++ noun
  | .noVariables => "found none"
  | .parts n => "found " ++ plural n "part"
  | .onlyParts n => "found only " ++ plural n "part"
  | .extraParts n => "found " ++ plural n "extra part"
  | .emptyPart => "found an empty part"
  | .clauseOf n =>
    if n = 1 then "found a clause with only one part"
    else "found a clause with " ++ toString n ++ " parts"

def atFront : List Form → Found
  | [] => .nothing
  | f :: _ => .one f.noun

end Found

inductive ResolveError where
  | expected (part : FormPart) (found : Found)
  /-- A definition, test or lambda where none is allowed, or an `else` outside of `cond`. -/
  | misplaced (form : Keyword)
  | elseNotLast
  | repeatedVariable (form : Keyword) (name : String)
  | repeatedField (name : String)
  | undefined (name : String)
  | functionAsVariable (name : String)
  | structTypeAsVariable (name : String)
  | arity (name : String) (arity : Arity) (found : Nat)
  | builtinRedefined (name : String)
  | redefined (name : String)
  /-- A keyword that does not head a group. The reader lets none through. -/
  | keywordOutsideHead (k : Keyword)
  /-- A `cond` without clauses. It is refused before it is lowered. -/
  | emptyCond

namespace ResolveError

/-- Is the error a fault of the interpreter itself? -/
def isInternal : ResolveError → Bool
  | .keywordOutsideHead _ | .emptyCond => true
  | _ => false

def misplacedText : Keyword → String
  | .define | .defineStruct => ": found a definition that is not at the top level"
  | .checkExpect => ": found a test that is not at the top level"
  | .lambda => ": found a lambda that is not a function definition"
  | _ => ": not allowed here, because this is not a question in a clause"

def message : ResolveError → String
  | .expected part found => part.text ++ ", but " ++ found.text
  | .misplaced form => form.name ++ misplacedText form
  | .elseNotLast => "cond: found an else clause that isn't the last clause in its cond expression"
  | .repeatedVariable form name =>
    form.name ++ ": found a variable that is used more than once: " ++ name
  | .repeatedField name =>
    "define-struct: found a field name that is used more than once: " ++ name
  | .undefined name => name ++ ": this variable is not defined"
  | .functionAsVariable name =>
    name ++ ": expected a function call, but there is no open parenthesis before this function"
  | .structTypeAsVariable name =>
    name ++ ": this is a structure type, did you mean make-" ++ name ++ "?"
  | .arity name a found => a.message name found
  | .builtinRedefined name =>
    name ++ ": this name was defined in the language or a required library and cannot be " ++
      "re-defined"
  | .redefined name => name ++ ": this name was defined previously and cannot be re-defined"
  | .keywordOutsideHead k =>
    "internal error: keyword " ++ k.name ++ " outside the head of a group"
  | .emptyCond => "internal error: cond lowered to nothing"

end ResolveError
end BeginningStudent
