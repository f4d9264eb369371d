import BeginningStudent.Expr

/-!
# Values

What expressions evaluate to. Structure types are generative: each evaluation of a
`define-struct` makes a type with a serial number of its own. A closure holds the bindings of the
parameters around its lambda expression; names of the top level are looked up when it is called.
-/

namespace BeginningStudent

/-- A structure type. Types of one name and the same fields differ in their serial numbers. -/
structure StructType where
  serial : Nat
  name : String
  fields : List String
deriving DecidableEq, Repr

namespace StructType

def constructorName (t : StructType) : String := "make-" ++ t.name

def predicateName (t : StructType) : String := t.name ++ "?"

def accessorName (t : StructType) (field : String) : String := t.name ++ "-" ++ field

end StructType

structure Lambda where
  site : Site
  name : Option String
  params : List String
  body : Expr

def Lambda.displayName (l : Lambda) : String := l.name.getD "lambda"

/-- What a closure keeps of the place of its lambda expression: the bindings of the parameters around
it, or the number of its environment where environments are shared. -/
inductive Capture (α : Type) where
  | bindings (bs : List (String × α))
  | environment (i : Nat)

inductive Value where
  | boolean (b : Bool)
  | number (n : Number)
  | string (s : String)
  | symbol (s : String)
  | empty
  | pair (first rest : Value)
  | closure (code : Lambda) (held : Capture Value)
  | primitive (p : Primitive)
  | constructor (t : StructType)
  | predicate (t : StructType)
  /-- The accessor of the field with the given index. -/
  | accessor (t : StructType) (index : Nat)
  | structType (t : StructType)
  /-- An instance of a structure type. -/
  | record (t : StructType) (fields : List Value)

abbrev Bindings := List (String × Value)

namespace Value

def ofDatum : Datum → Value
  | .boolean b => .boolean b
  | .number n => .number n
  | .string s => .string s
  | .symbol s => .symbol s
  | .empty => .empty
  | .pair first rest => .pair (ofDatum first) (ofDatum rest)
  | .primitive p => .primitive p

def ofList (vs : List Value) : Value := vs.foldr .pair .empty

def isList : Value → Bool
  | .empty => true
  | .pair _ rest => rest.isList
  | _ => false

/-- The number of pairs along the rests of a value, added to `n`. -/
def lengthOnto (n : Nat) : Value → Nat
  | .pair _ rest => rest.lengthOnto (n + 1)
  | _ => n

def fieldName (t : StructType) (index : Nat) : String := t.fields.getD index ""

def procedureName? : Value → Option String
  | .closure code _ => some code.displayName
  | .primitive p => some p.name
  | .constructor t => some t.constructorName
  | .predicate t => some t.predicateName
  | .accessor t i => some (t.accessorName (fieldName t i))
  | _ => none

end Value
end BeginningStudent
