import BeginningStudent.Resolve.Program

/-!
# Resolvers

Resolution with the effects that `SymbolTable.resolveProgram` does without. A resolver goes through a
program with one stack of scopes and a mark for being inside the body of a function. For a body it
enters a scope and sets the mark, and afterwards it leaves the scope and puts the mark back, also
when the body fails. An error ends the computation where it arises; what the resolver holds by then
is what it begins the next program with.
-/

namespace BeginningStudent

structure Resolver where
  symbols : SymbolTable
  /-- Is this the body of a function? -/
  inBody : Bool
deriving DecidableEq

namespace Resolver

abbrev Run := EStateM ResolveError Resolver

def start : Resolver := ⟨.empty, false⟩

/-! ### Effects -/

def settle {α : Type} : Except ResolveError α → Run α
  | .ok a => pure a
  | .error e => throw e

def consult {α : Type} (f : SymbolTable → Except ResolveError α) : Run α := fun r =>
  settle (f r.symbols) r

def define (s : String) (k : Kind) : Run Unit := fun r =>
  .ok () { r with symbols := r.symbols.define s k }

def declare : Scope → Run Unit
  | [] => pure ()
  | (s, k) :: rest => do
    consult (·.checkFresh s)
    define s k
    declare rest

def inFunction (params : List String) (body : Run Expr) : Run Expr := fun r =>
  match body ⟨r.symbols.pushParams params, true⟩ with
  | .ok e r' => .ok e ⟨r'.symbols.pop, r.inBody⟩
  | .error e r' => .error e ⟨r'.symbols.pop, r.inBody⟩

/-! ### Expressions -/

mutual

/-- Resolves an expression. The site is that of the form in the body that it is part of, and means
nothing outside of bodies. -/
def expression (site : Site) : Form → Run Expr
  | .number z => pure (.literal (.number z))
  | .string s => pure (.literal (.string s))
  | .boolean b => pure (.literal (.boolean b))
  | .name s => consult (·.reference s)
  | .keyword k => throw (.keywordOutsideHead k)
  | .group [] => throw (.expected .callee .nothing)
  | .group (.keyword k :: parts) => specialForm site k parts
  | .group (.name s :: arguments) => do
    consult (·.checkCall s arguments.length)
    return .call (.identifier s) (← expressions site 0 arguments)
  | .group (f :: _) => throw (.expected .callee (.one f.noun))
termination_by f => 2 * sizeOf f

def specialForm (site : Site) : Keyword → List Form → Run Expr
  | .define, _ => throw (.misplaced .define)
  | .defineStruct, _ => throw (.misplaced .defineStruct)
  | .checkExpect, _ => throw (.misplaced .checkExpect)
  | .elseClause, _ => throw (.misplaced .elseClause)
  | .quote, parts => settle (Form.quotation parts)
  | .lambda, parts => do
    if (← get).inBody then
      match _ : Form.lambdaParts parts with
      | .error e => throw e
      | .ok (params, body) =>
        return .lambda site none params (← inFunction params (expression (site.part 0) body))
    else throw (.misplaced .lambda)
  | .ifElse, [question, answer, otherwise] => do
    let question ← expression (site.part 0) question
    let answer ← expression (site.part 1) answer
    let otherwise ← expression (site.part 2) otherwise
    return .branch .ifElse question answer (some otherwise)
  | .ifElse, parts => throw (.expected .ifParts (Form.ifFound parts))
  | .cond, [] => throw (.expected .condClauses .nothing)
  | .cond, clauses => do
    let (clauses, otherwise) ← condClauses site 0 clauses
    match Expr.cond? clauses otherwise with
    | some e => return e
    | none => throw .emptyCond
  | .conjunction, parts =>
    if 2 ≤ parts.length then Expr.conjunction <$> expressions site 0 parts
    else throw (.arity Conditional.conjunction.name (.atLeast 2) parts.length)
  | .disjunction, parts =>
    if 2 ≤ parts.length then Expr.disjunction <$> expressions site 0 parts
    else throw (.arity Conditional.disjunction.name (.atLeast 2) parts.length)
termination_by _ parts => 2 * sizeOf parts + 1
decreasing_by
  all_goals first
    | exact Form.sizeOf_of_lambdaParts ‹_›
    | simp_wf <;> omega

def expressions (site : Site) (i : Nat) : List Form → Run (List Expr)
  | [] => pure []
  | f :: rest => do
    let e ← expression (site.part i) f
    return e :: (← expressions site (i + 1) rest)
termination_by fs => 2 * sizeOf fs

def condClauses (site : Site) (i : Nat) :
    List Form → Run (List (Expr × Expr) × Option Expr)
  | [] => pure ([], none)
  | .group [.keyword .elseClause, answer] :: rest =>
    if rest.isEmpty then do
      return ([], some (← expression (site.part (2 * i + 1)) answer))
    else throw .elseNotLast
  | .group [question, answer] :: rest => do
    let question ← expression (site.part (2 * i)) question
    let answer ← expression (site.part (2 * i + 1)) answer
    let (clauses, otherwise) ← condClauses site (i + 1) rest
    return ((question, answer) :: clauses, otherwise)
  | .group parts :: _ => throw (.expected .clause (Form.clauseFound parts))
  | f :: _ => throw (.expected .clause (.one f.noun))
termination_by clauses => 2 * sizeOf clauses

end

/-! ### Programs -/

def nowhere : Site := ⟨"", []⟩

def definition : Definition → Run Expr
  | .value s f => do
    let e ← expression nowhere f
    define s .value
    return .define s e
  | .function s params body => do
    define s (.function (.exactly params.length))
    let site : Site := ⟨s, []⟩
    let body ← inFunction params (expression (site.part 0) body)
    return .define s (.lambda site (some s) params body)
  | .struct s fields => do
    declare (Definition.structNames s fields)
    return .defineStruct s fields

def form : Form → Run Expr
  | .group (.keyword .define :: parts) => do
    definition (← consult (Definition.ofDefine · parts))
  | .group (.keyword .defineStruct :: parts) => do
    definition (← settle (Definition.ofDefineStruct parts))
  | f => expression nowhere f

def forms : List Form → Run SplitProgram
  | [] => pure ⟨[], []⟩
  | .group (.keyword .checkExpect :: parts) :: rest => do
    let test ← settle (SymbolTable.testParts parts)
    let program ← forms rest
    return { program with tests := test :: program.tests }
  | f :: rest => do
    let e ← form f
    let program ← forms rest
    return { program with forms := e :: program.forms }

def test (test : Form × Form) : Run TestCase := do
  let actual ← expression nowhere test.1
  let expected ← expression nowhere test.2
  return ⟨actual, expected⟩

def program (fs : List Form) : Run Program := do
  let split ← forms fs
  return ⟨split.forms, ← split.tests.mapM test⟩

/-- The resolver that a computation leaves, whether it succeeds or fails. -/
def left {α : Type} : EStateM.Result ResolveError Resolver α → Resolver
  | .ok _ r => r
  | .error _ r => r

/-- The resolver after programs that it was given one by one. -/
def after (r : Resolver) (programs : List (List Form)) : Resolver :=
  programs.foldl (fun r fs => left (program fs r)) r

end Resolver
end BeginningStudent
