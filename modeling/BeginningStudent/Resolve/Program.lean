import BeginningStudent.Resolve

/-!
# Resolution of programs

Definitions are taken apart into a `Definition` before anything is registered, so the two ways of
writing a function lead to the same one. The name of a function is registered before its body is
resolved, the name of a value after its expression. A structure registers its names one by one,
up to the first that is taken.

What has been registered stays in the table when resolution fails; this is why every function here
gives a table next to its result. Tests are resolved after all other forms, and see all names.
-/

namespace BeginningStudent

inductive Definition where
  | value (name : String) (expression : Form)
  | function (name : String) (params : List String) (body : Form)
  | struct (name : String) (fields : List String)

namespace SymbolTable

def checkFresh (t : SymbolTable) (s : String) : Except ResolveError Unit :=
  match t.lookup s with
  | none => .ok ()
  | some k => .error (if k.isBuiltin then .builtinRedefined s else .redefined s)

def declare (t : SymbolTable) : Scope → SymbolTable × Except ResolveError Unit
  | [] => (t, .ok ())
  | (s, k) :: rest =>
    match t.checkFresh s with
    | .error e => (t, .error e)
    | .ok () => (t.define s k).declare rest

end SymbolTable

namespace Definition

/-! ### Taking definitions apart -/

def soleValue (s : String) : List Form → Except ResolveError Form
  | [] => .error (.expected (.definedValue s) .nothing)
  | [expression] => .ok expression
  | _ :: extra => .error (.expected (.onlyDefinedValue s) (.extraParts extra.length))

/-- The definition of a name by an expression. A lambda expression makes it a function. -/
def ofValue (s : String) : Form → Except ResolveError Definition
  | .group (.keyword .lambda :: parts) => do
    let (params, body) ← Form.lambdaParts parts
    return .function s params body
  | expression => .ok (.value s expression)

def ofDefine (t : SymbolTable) : List Form → Except ResolveError Definition
  | .name s :: rest => do
    t.checkFresh s
    ofValue s (← soleValue s rest)
  | .group (.name s :: params) :: rest => do
    t.checkFresh s
    let (params, body) ← Form.functionParts params rest
    return .function s params body
  | .group header :: _ => .error (.expected .functionName (.atFront header))
  | parts => .error (.expected .defineTarget (.atFront parts))

def fieldNames (seen : List String) : List Form → Except ResolveError (List String)
  | [] => .ok []
  | .name s :: rest =>
    if s ∈ seen then .error (.repeatedField s) else (s :: ·) <$> fieldNames (s :: seen) rest
  | f :: _ => .error (.expected .fieldName (.one f.noun))

def ofDefineStruct : List Form → Except ResolveError Definition
  | .name s :: .group fields :: extra => do
    let fields ← fieldNames [] fields
    if extra.isEmpty then return .struct s fields
    else .error (.expected .nothingAfterFields (.extraParts extra.length))
  | .name _ :: parts => .error (.expected .fieldNames (.atFront parts))
  | parts => .error (.expected .structName (.atFront parts))

/-! ### Resolving definitions -/

def structNames (s : String) (fields : List String) : Scope :=
  (s, .structType) :: ("make-" ++ s, .function (.exactly fields.length)) ::
    (s ++ "?", .function (.exactly 1)) ::
    fields.map fun field => (s ++ "-" ++ field, .function (.exactly 1))

def resolve (t : SymbolTable) : Definition → SymbolTable × Except ResolveError Expr
  | .value s expression =>
    match expression.resolve t none with
    | .error e => (t, .error e)
    | .ok e => (t.define s .value, .ok (.define s e))
  | .function s params body =>
    let site : Site := ⟨s, []⟩
    let t := t.define s (.function (.exactly params.length))
    (t, (fun body => .define s (.lambda site (some s) params body)) <$>
      body.resolve (t.pushParams params) (some (site.part 0)))
  | .struct s fields =>
    let (t, declared) := t.declare (structNames s fields)
    (t, declared.map fun _ => .defineStruct s fields)

end Definition

/-- A program whose tests still wait: its resolved forms, and the two expressions of each test. -/
structure SplitProgram where
  forms : List Expr
  tests : List (Form × Form)

namespace SymbolTable

def resolveForm (t : SymbolTable) (f : Form) : SymbolTable × Except ResolveError Expr :=
  match f with
  | .group (.keyword .define :: parts) =>
    match Definition.ofDefine t parts with
    | .error e => (t, .error e)
    | .ok d => d.resolve t
  | .group (.keyword .defineStruct :: parts) =>
    match Definition.ofDefineStruct parts with
    | .error e => (t, .error e)
    | .ok d => d.resolve t
  | f => (t, f.resolve t none)

def testParts : List Form → Except ResolveError (Form × Form)
  | [actual, expected] => .ok (actual, expected)
  | parts => .error (.arity Keyword.checkExpect.name (.exactly 2) parts.length)

def resolveForms (t : SymbolTable) : List Form → SymbolTable × Except ResolveError SplitProgram
  | [] => (t, .ok ⟨[], []⟩)
  | .group (.keyword .checkExpect :: parts) :: rest =>
    match testParts parts with
    | .error e => (t, .error e)
    | .ok test =>
      let (t, program) := t.resolveForms rest
      (t, program.map fun p => { p with tests := test :: p.tests })
  | f :: rest =>
    match t.resolveForm f with
    | (t, .error e) => (t, .error e)
    | (t, .ok e) =>
      let (t, program) := t.resolveForms rest
      (t, program.map fun p => { p with forms := e :: p.forms })

def resolveTest (t : SymbolTable) (test : Form × Form) : Except ResolveError TestCase := do
  let actual ← test.1.resolve t none
  let expected ← test.2.resolve t none
  return ⟨actual, expected⟩

def resolveProgram (t : SymbolTable) (forms : List Form) :
    SymbolTable × Except ResolveError Program :=
  match t.resolveForms forms with
  | (t, .error e) => (t, .error e)
  | (t, .ok p) => (t, (Program.mk p.forms ·) <$> p.tests.mapM t.resolveTest)

end SymbolTable
end BeginningStudent
