import BeginningStudent.Expr
import BeginningStudent.Resolve.Error
import BeginningStudent.Symbols

/-!
# Resolution of expressions

The expression that a form means, given what is known about names. Every name is checked for being
defined and for being used as what it is, calls of functions are checked for their number of
arguments, and `cond`, `and` and `or` become branches.

Expressions are resolved from left to right, and the first error counts. A lambda expression is
only allowed inside the body of a function; the site that is passed down is that of the form in
the body, and is missing outside of bodies.
-/

namespace BeginningStudent

namespace SymbolTable

def reference (t : SymbolTable) (s : String) : Except ResolveError Expr :=
  match t.lookup s with
  | none => .error (.undefined s)
  | some (.function _) | some (.builtinFunction _) => .error (.functionAsVariable s)
  | some .structType => .error (.structTypeAsVariable s)
  | some .value | some .parameter | some .builtinLiteral => .ok (.identifier s)

/-- Checks that a name can be called with the given number of arguments. The number is left
unchecked for primitives that take any number from some minimum on. -/
def checkCall (t : SymbolTable) (s : String) (count : Nat) : Except ResolveError Unit :=
  match t.lookup s with
  | none => .error (.undefined s)
  | some (.function a) | some (.builtinFunction a@(.exactly _)) =>
    if a.accepts count then .ok () else .error (.arity s a count)
  | some (.builtinFunction (.atLeast _)) => .ok ()
  | some .structType => .error (.expected .callee (.one "structure type"))
  | some .value | some .parameter | some .builtinLiteral =>
    .error (.expected .callee (.one (Form.name s).noun))

end SymbolTable

namespace Form

/-! ### Parts of functions -/

def paramNames (form : Keyword) (seen : List String) : List Form → Except ResolveError (List String)
  | [] => .ok []
  | .name s :: rest =>
    if s ∈ seen then .error (.repeatedVariable form s)
    else (s :: ·) <$> paramNames form (s :: seen) rest
  | f :: _ => .error (.expected (.variableName form) (.one f.noun))

def soleBody (form : Keyword) : List Form → Except ResolveError Form
  | [] => .error (.expected (.body form) .nothing)
  | [body] => .ok body
  | _ :: extra => .error (.expected (.onlyBody form) (.extraParts extra.length))

def functionParts (params rest : List Form) : Except ResolveError (List String × Form) := do
  if params.isEmpty then .error (.expected .functionVariables .noVariables)
  else
    let names ← paramNames .define [] params
    return (names, ← soleBody .define rest)

def lambdaParts : List Form → Except ResolveError (List String × Form)
  | .group params :: rest => do
    if params.isEmpty then .error (.expected .lambdaVariables .noVariables)
    else
      let names ← paramNames .lambda [] params
      return (names, ← soleBody .lambda rest)
  | parts => .error (.expected .lambdaVariablesGroup (.atFront parts))

theorem mem_of_soleBody {form : Keyword} {rest : List Form} {body : Form}
    (h : soleBody form rest = .ok body) : body ∈ rest := by
  unfold soleBody at h
  split at h <;> simp_all

theorem mem_of_lambdaParts {parts : List Form} {params : List String} {body : Form}
    (h : lambdaParts parts = .ok (params, body)) : body ∈ parts := by
  unfold lambdaParts at h
  split at h
  · rename_i ps rest
    split at h
    · simp at h
    · cases hp : paramNames .lambda [] ps with
      | error e => simp [hp, bind, Except.bind] at h
      | ok names =>
        cases hb : soleBody .lambda rest with
        | error e => simp [hp, hb, bind, Except.bind] at h
        | ok b =>
          simp only [hp, hb, bind, Except.bind, pure, Except.pure, Except.ok.injEq,
            Prod.mk.injEq] at h
          exact List.mem_cons_of_mem _ (h.2 ▸ mem_of_soleBody hb)
  · simp at h

theorem sizeOf_of_lambdaParts {parts : List Form} {params : List String} {body : Form}
    (h : lambdaParts parts = .ok (params, body)) : 2 * sizeOf body < 2 * sizeOf parts + 1 := by
  have := List.sizeOf_lt_of_mem (mem_of_lambdaParts h)
  omega

/-! ### Special forms without parts that are resolved -/

def quotation : List Form → Except ResolveError Expr
  | [.name s] => .ok (.quoted (.symbol s))
  | [.group []] => .ok (.quoted .empty)
  | [f] => .error (.expected .quotedName (.one f.noun))
  | parts => .error (.expected .quotedPart (.parts parts.length))

/-- What a clause with a wrong number of parts looks like. -/
def clauseFound (parts : List Form) : Found :=
  if parts.isEmpty then .emptyPart else .clauseOf parts.length

def ifFound (parts : List Form) : Found :=
  if parts.isEmpty then .nothing
  else if parts.length < 3 then .onlyParts parts.length
  else .parts parts.length

def partSite (site : Option Site) (i : Nat) : Option Site := site.map (·.part i)

/-! ### Expressions -/

mutual

def resolve (t : SymbolTable) (site : Option Site) : Form → Except ResolveError Expr
  | .number z => .ok (.literal (.number z))
  | .string s => .ok (.literal (.string s))
  | .boolean b => .ok (.literal (.boolean b))
  | .name s => t.reference s
  | .keyword k => .error (.keywordOutsideHead k)
  | .group [] => .error (.expected .callee .nothing)
  | .group (.keyword k :: parts) => resolveSpecial t site k parts
  | .group (.name s :: arguments) => do
    t.checkCall s arguments.length
    return .call (.identifier s) (← resolveAll t site 0 arguments)
  | .group (f :: _) => .error (.expected .callee (.one f.noun))
termination_by f => 2 * sizeOf f

def resolveSpecial (t : SymbolTable) (site : Option Site) :
    Keyword → List Form → Except ResolveError Expr
  | .define, _ => .error (.misplaced .define)
  | .defineStruct, _ => .error (.misplaced .defineStruct)
  | .checkExpect, _ => .error (.misplaced .checkExpect)
  | .elseClause, _ => .error (.misplaced .elseClause)
  | .quote, parts => quotation parts
  | .lambda, parts =>
    match site with
    | none => .error (.misplaced .lambda)
    | some s =>
      match _ : lambdaParts parts with
      | .error e => .error e
      | .ok (params, body) => do
        return .lambda s none params (← resolve (t.pushParams params) (some (s.part 0)) body)
  | .ifElse, [question, answer, otherwise] => do
    let question ← resolve t (partSite site 0) question
    let answer ← resolve t (partSite site 1) answer
    let otherwise ← resolve t (partSite site 2) otherwise
    return .branch .ifElse question answer (some otherwise)
  | .ifElse, parts => .error (.expected .ifParts (ifFound parts))
  | .cond, [] => .error (.expected .condClauses .nothing)
  | .cond, clauses => do
    let (clauses, otherwise) ← resolveClauses t site 0 clauses
    match Expr.cond? clauses otherwise with
    | some e => .ok e
    | none => .error .emptyCond
  | .conjunction, parts =>
    if 2 ≤ parts.length then Expr.conjunction <$> resolveAll t site 0 parts
    else .error (.arity Conditional.conjunction.name (.atLeast 2) parts.length)
  | .disjunction, parts =>
    if 2 ≤ parts.length then Expr.disjunction <$> resolveAll t site 0 parts
    else .error (.arity Conditional.disjunction.name (.atLeast 2) parts.length)
termination_by _ parts => 2 * sizeOf parts + 1
decreasing_by
  all_goals first
    | exact sizeOf_of_lambdaParts ‹_›
    | simp_wf <;> omega

def resolveAll (t : SymbolTable) (site : Option Site) (i : Nat) :
    List Form → Except ResolveError (List Expr)
  | [] => .ok []
  | f :: rest => do
    let e ← resolve t (partSite site i) f
    return e :: (← resolveAll t site (i + 1) rest)
termination_by fs => 2 * sizeOf fs

def resolveClauses (t : SymbolTable) (site : Option Site) (i : Nat) :
    List Form → Except ResolveError (List (Expr × Expr) × Option Expr)
  | [] => .ok ([], none)
  | .group [.keyword .elseClause, answer] :: rest =>
    if rest.isEmpty then do
      return ([], some (← resolve t (partSite site (2 * i + 1)) answer))
    else .error .elseNotLast
  | .group [question, answer] :: rest => do
    let question ← resolve t (partSite site (2 * i)) question
    let answer ← resolve t (partSite site (2 * i + 1)) answer
    let (clauses, otherwise) ← resolveClauses t site (i + 1) rest
    return ((question, answer) :: clauses, otherwise)
  | .group parts :: _ => .error (.expected .clause (clauseFound parts))
  | f :: _ => .error (.expected .clause (.one f.noun))
termination_by clauses => 2 * sizeOf clauses

end

end Form
end BeginningStudent
