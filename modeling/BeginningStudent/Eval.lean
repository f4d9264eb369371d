import BeginningStudent.Environment
import BeginningStudent.Eval.Error
import BeginningStudent.Primitive.Operation

/-!
# Evaluation

The value of an expression. `Expr.eval` follows the structure of the expression and leaves calls
to a function that it is given; `Value.call` calls a procedure, and may nest calls of closures as
deep as it is told. Neither changes any binding, so evaluation has no state.

The callee of a call is evaluated before its arguments, and only then is it checked for being a
procedure. A closure checks its number of arguments before its depth.
-/

namespace BeginningStudent

/-! ### Call stacks -/

def onFreshStack {α : Type} (f : Unit → α) : α := (Task.spawn f .dedicated).get

/-- The value of `f`, on a fresh call stack at every 256th level of nesting. -/
def atLevel {α : Type} (level : Nat) (f : Unit → α) : α :=
  if level % 256 = 0 then onFreshStack f else f ()

/-- The choice of the call stack makes no difference to the value. -/
@[simp] theorem atLevel_eq {α : Type} (level : Nat) (f : Unit → α) : atLevel level f = f () := by
  unfold atLevel
  split <;> rfl

/-! ### Expressions -/

namespace Expr

abbrev Caller := Value → List Value → Except EvalError Value

mutual

def eval (call : Caller) (env : Environment) : Expr → Except EvalError Value
  | .literal d | .quoted d => .ok (.ofDatum d)
  | .identifier s =>
    match env.lookup s with
    | some v => .ok v
    | none => .error (.unbound s)
  | .lambda site name params body => .ok (.closure ⟨site, name, params, body⟩ (.bindings env.locals))
  | .call callee arguments => do
    let procedure ← eval call env callee
    let args ← evalAll call env arguments
    call procedure args
  | .branch form question answer otherwise => do
    match ← eval call env question with
    | .boolean true => eval call env answer
    | .boolean false => evalElse call env otherwise
    | v => .error (.notBoolean form v)
  | .define _ _ | .defineStruct _ _ => .error .nestedDefinition

def evalAll (call : Caller) (env : Environment) : List Expr → Except EvalError (List Value)
  | [] => .ok []
  | e :: rest => do
    let v ← eval call env e
    return v :: (← evalAll call env rest)

def evalElse (call : Caller) (env : Environment) : Option Expr → Except EvalError Value
  | some e => eval call env e
  | none => .error .allFalse

end

end Expr

/-! ### Calls -/

namespace StructType

def construct (t : StructType) (args : List Value) : Except EvalError Value :=
  if args.length = t.fields.length then .ok (.record t args)
  else .error (.constructorArity t args.length)

def test (t : StructType) : List Value → Except EvalError Value
  | [.record u _] => .ok (.boolean (t == u))
  | [_] => .ok (.boolean false)
  | args => .error (.arity t.predicateName (.exactly 1) args.length)

def access (t : StructType) (index : Nat) : List Value → Except EvalError Value
  | [.record u fields] =>
    if t = u then
      match fields[index]? with
      | some v => .ok v
      | none => .error (.missingField t index)
    else .error (.notInstance t index (.record u fields))
  | [v] => .error (.notInstance t index v)
  | args =>
    .error (.arity (t.accessorName (Value.fieldName t index)) (.exactly 1) args.length)

end StructType

namespace Value

/-- Calls a value with arguments. Up to `depth` calls of closures may be nested. -/
def call (globals : Bindings) (depth : Nat) (procedure : Value) (args : List Value) :
    Except EvalError Value :=
  match procedure with
  | .primitive p => (p.apply args).mapError (.primitive p)
  | .constructor t => t.construct args
  | .predicate t => t.test args
  | .accessor t i => t.access i args
  | .closure code (.bindings locals) =>
    if args.length = code.params.length then
      match depth with
      | 0 => .error .tooDeep
      | depth + 1 =>
        atLevel depth fun _ =>
          code.body.eval (fun v args => call globals depth v args)
            ⟨globals, Bindings.bind locals code.params args⟩
    else .error (.arity code.displayName (.exactly code.params.length) args.length)
  | v => .error (.notProcedure v)

end Value
end BeginningStudent
