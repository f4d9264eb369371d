import BeginningStudent.Numeric.Number
import BeginningStudent.Primitive

/-!
# Expressions

Programs whose names have been looked up and whose special forms have been lowered to a few
kinds of expressions. `cond`, `and` and `or` are nested branches: `Expr.cond?`,
`Expr.conjunction` and `Expr.disjunction` build them.
-/

namespace BeginningStudent

/-- A value that can be written down: it holds no closure and nothing that depends on a run. -/
inductive Datum where
  | boolean (b : Bool)
  | number (n : Number)
  | string (s : String)
  | symbol (s : String)
  | empty
  | pair (first rest : Datum)
  | primitive (p : Primitive)
deriving DecidableEq

/-- The surface form that a branch comes from, which its error messages name. -/
inductive Conditional where
  | ifElse
  | cond
  | conjunction
  | disjunction
deriving DecidableEq, Repr

def Conditional.name : Conditional → String
  | .ifElse => "if"
  | .cond => "cond"
  | .conjunction => "and"
  | .disjunction => "or"

/-- The place of a lambda expression in its program: the name that it is part of the definition
of, and the way down from that definition. Lambda expressions at different sites differ, even
when they look the same. -/
structure Site where
  owner : String
  path : List Nat
deriving DecidableEq, Repr

def Site.part (s : Site) (i : Nat) : Site := { s with path := i :: s.path }

/-- An expression, or a definition, which is only allowed at the top level. -/
inductive Expr where
  | call (callee : Expr) (arguments : List Expr)
  | define (name : String) (value : Expr)
  | defineStruct (name : String) (fields : List String)
  /-- A procedure. It has a name when it is the whole value of a definition. -/
  | lambda (site : Site) (name : Option String) (params : List String) (body : Expr)
  | identifier (name : String)
  | literal (d : Datum)
  | quoted (d : Datum)
  /-- A choice between two answers. The second is missing at the end of a `cond` without `else`. -/
  | branch (form : Conditional) (question answer : Expr) (otherwise : Option Expr)

namespace Expr

def boolean (b : Bool) : Expr := .literal (.boolean b)

def isDefinition : Expr → Bool
  | .define _ _ | .defineStruct _ _ => true
  | _ => false

/-- The branches of a `cond` with the given questions and answers, and the answer of its `else`
clause if it has one. None when there is no clause at all. -/
def cond? (clauses : List (Expr × Expr)) (otherwise : Option Expr) : Option Expr :=
  clauses.foldr (fun clause rest => some (.branch .cond clause.1 clause.2 rest)) otherwise

/-- The branches of an `and`. Every operand is the question of a branch, so the last one is
checked for being a boolean as well. -/
def conjunction (operands : List Expr) : Expr :=
  operands.foldr
    (fun operand rest => .branch .conjunction operand rest (some (boolean false))) (boolean true)

def disjunction (operands : List Expr) : Expr :=
  operands.foldr
    (fun operand rest => .branch .disjunction operand (boolean true) (some rest)) (boolean false)

end Expr

/-- A test: two expressions that should have equal values. -/
structure TestCase where
  actual : Expr
  expected : Expr

structure Program where
  forms : List Expr
  tests : List TestCase

end BeginningStudent
