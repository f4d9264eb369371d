import BeginningStudent.Value

/-!
# Environments

Where names get their values during evaluation: from the parameters around the place, then from
the definitions of the top level, then from the language. An `EnvironmentTree` is the general form
of this nesting, in which every environment can still get new bindings while others depend on it.
-/

namespace BeginningStudent

/-! ### Names of the language -/

namespace Constant

def all : List (String × Datum) :=
  [("true", .boolean true), ("false", .boolean false), ("empty", .empty), ("null", .empty),
    ("pi", .number (.real (.float (.ofDecimal 3141592653589793 (-15))))),
    ("e", .number (.real (.float (.ofDecimal 2718281828459045 (-15)))))]

def isName (s : String) : Bool := (all.lookup s).isSome

end Constant

def Value.builtin? (s : String) : Option Value :=
  (Primitive.ofName? s).map .primitive <|> (Constant.all.lookup s).map .ofDatum

/-! ### Environments -/

/-- The names that are visible at a place: the definitions of the top level, and the parameters
around the place. -/
structure Environment where
  globals : Bindings
  locals : Bindings

namespace Environment

def lookup (env : Environment) (s : String) : Option Value :=
  env.locals.lookup s <|> env.globals.lookup s <|> Value.builtin? s

end Environment

namespace Bindings

/-- Binds parameters to arguments. When a parameter is repeated, its last argument counts. -/
def bind (locals : Bindings) (params : List String) (args : List Value) : Bindings :=
  (params.zip args).reverse ++ locals

end Bindings

/-! ### Trees of environments -/

/-- The bindings of one environment, and the environment around it. Without one, the names of the
language are around it. -/
structure Frame where
  parent : Option Nat
  bindings : Bindings

/-- Environments by number. Parents have smaller numbers than their children. -/
structure EnvironmentTree where
  frames : Array Frame

namespace EnvironmentTree

/-- The tree with environment 0 only, which has no bindings of its own. -/
def initial : EnvironmentTree := ⟨#[⟨none, []⟩]⟩

def child (t : EnvironmentTree) (i : Nat) : Nat × EnvironmentTree :=
  (t.frames.size, ⟨t.frames.push ⟨some i, []⟩⟩)

def insert (t : EnvironmentTree) (i : Nat) (s : String) (v : Value) : EnvironmentTree :=
  ⟨t.frames.modify i fun f => { f with bindings := (s, v) :: f.bindings }⟩

/-- The value of a name in an environment: its own binding, else the value in its parent. -/
def lookup (t : EnvironmentTree) (i : Nat) (s : String) : Option Value :=
  match t.frames[i]? with
  | none => none
  | some f =>
    f.bindings.lookup s <|>
      match f.parent with
      | none => Value.builtin? s
      | some p => if p < i then t.lookup p s else none
termination_by i

end EnvironmentTree
end BeginningStudent
