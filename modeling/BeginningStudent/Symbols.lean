import BeginningStudent.Arity
import BeginningStudent.Environment
import BeginningStudent.Primitive.Operation

/-!
# Symbol tables

What is known about names while a program is resolved. A table is a stack of scopes with the top
level at its bottom; the built-in names lie below the top level and are consulted last.
-/

namespace BeginningStudent

inductive Kind where
  | value
  | function (arity : Arity)
  | builtinFunction (arity : Arity)
  | builtinLiteral
  | structType
  | parameter
deriving DecidableEq, Repr

def Kind.isBuiltin : Kind → Bool
  | .builtinFunction _ | .builtinLiteral => true
  | _ => false

def Kind.ofBuiltin? (s : String) : Option Kind :=
  match Primitive.ofName? s with
  | some p => some (.builtinFunction p.arity)
  | none => if Constant.isName s then some .builtinLiteral else none

abbrev Scope := List (String × Kind)

/-- The scopes around a place: those inside the top level, the innermost first, and the top
level itself. -/
structure SymbolTable where
  inner : List Scope
  top : Scope
deriving DecidableEq, Repr

namespace SymbolTable

def empty : SymbolTable := ⟨[], []⟩

def push (t : SymbolTable) : SymbolTable := { t with inner := [] :: t.inner }

def pop (t : SymbolTable) : SymbolTable := { t with inner := t.inner.tail }

def define (t : SymbolTable) (s : String) (k : Kind) : SymbolTable :=
  match t.inner with
  | [] => { t with top := (s, k) :: t.top }
  | scope :: outer => { t with inner := ((s, k) :: scope) :: outer }

/-- What a name stands for: its newest definition in the innermost scope that has one, else its
meaning in the language. -/
def lookup (t : SymbolTable) (s : String) : Option Kind :=
  (t.inner.findSome? (·.lookup s) <|> t.top.lookup s) <|> Kind.ofBuiltin? s

def pushParams (t : SymbolTable) (params : List String) : SymbolTable :=
  params.foldl (·.define · .parameter) t.push

end SymbolTable
end BeginningStudent
