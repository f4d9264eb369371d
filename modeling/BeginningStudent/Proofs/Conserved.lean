import BeginningStudent.Proofs.Evaluation
import Mathlib.Data.Option.Basic

/-!
# Properties that evaluation keeps

Evaluation makes values from literals, primitives, closures and constructors, and takes them apart
with primitives, accessors and calls. A property that is `Conserved` by all this holds of every
value that an expression has, when it holds of the values in sight (`Conserved.eval`), and of what
calls give (`Conserved.call`).
-/

namespace BeginningStudent

/-- The property `P` of values is kept by whatever the evaluation of expressions with the property
`Q` does. -/
structure Conserved (P : Value → Prop) (Q : Expr → Prop) : Prop extends Value.ListClosed P where
  primitive : ∀ p, P (.primitive p)
  instances : ∀ t fields, P (.constructor t) → fields.length = t.fields.length →
    (∀ v ∈ fields, P v) → P (.record t fields)
  fields : ∀ t fields, P (.record t fields) → ∀ v ∈ fields, P v
  closure : ∀ code locals,
    P (.closure code (.bindings locals)) ↔ Q code.body ∧ ∀ b ∈ locals, P b.2
  literal : ∀ d, Q (.literal d) → P (.ofDatum d)
  quoted : ∀ d, Q (.quoted d) → P (.ofDatum d)
  lambda : ∀ site name params body, Q (.lambda site name params body) → Q body
  call : ∀ callee arguments, Q (.call callee arguments) → Q callee ∧ ∀ e ∈ arguments, Q e
  branch : ∀ form question answer otherwise, Q (.branch form question answer otherwise) →
    Q question ∧ Q answer ∧ ∀ e ∈ otherwise, Q e

/-- The property holds of all values in sight. -/
structure Environment.All (P : Value → Prop) (env : Environment) : Prop where
  globals : ∀ b ∈ env.globals, P b.2
  locals : ∀ b ∈ env.locals, P b.2

def Expr.Caller.Keeps (P : Value → Prop) (call : Expr.Caller) : Prop :=
  ∀ v args, P v → (∀ a ∈ args, P a) → Yields P (fun _ => True) (call v args)

/-- Names of the language stand for primitives and for simple values. -/
theorem Value.builtin?_cases {s : String} {v : Value} (h : builtin? s = some v) :
    (∃ p, v = .primitive p) ∨ v.Simple := by
  have hsimple : ∀ c ∈ Constant.all, (ofDatum c.2).Simple := by
    simp [Constant.all, ofDatum, Simple, isFlat, Number.Collapsed]
  unfold builtin? at h
  cases hp : Primitive.ofName? s with
  | some p =>
    rw [hp] at h
    cases h
    exact .inl ⟨p, rfl⟩
  | none =>
    rw [hp] at h
    obtain ⟨d, hd, rfl⟩ := Option.map_eq_some_iff.mp h
    exact .inr (hsimple _ (mem_of_lookup hd))

namespace Conserved

variable {P : Value → Prop} {Q : Expr → Prop} {call : Expr.Caller} {env : Environment}

theorem builtin (hP : Conserved P Q) {s : String} {v : Value} (h : Value.builtin? s = some v) :
    P v := by
  rcases Value.builtin?_cases h with ⟨p, rfl⟩ | hv
  · exact hP.primitive p
  · exact hP.simple v hv

theorem lookup (hP : Conserved P Q) (henv : env.All P) {s : String} {v : Value}
    (h : env.lookup s = some v) : P v := by
  rcases (Option.orElse_eq_some _ _ _).mp h with hl | ⟨-, h⟩
  · exact henv.locals _ (mem_of_lookup hl)
  · rcases (Option.orElse_eq_some _ _ _).mp h with hg | ⟨-, hb⟩
    · exact henv.globals _ (mem_of_lookup hg)
    · exact hP.builtin hb

/-! ### Expressions -/

mutual

theorem eval (hP : Conserved P Q) (hcall : call.Keeps P) (henv : env.All P) (e : Expr)
    (he : Q e) : Yields P (fun _ => True) (e.eval call env) := by
  match e with
  | .literal d =>
    rw [Expr.eval]
    exact hP.literal d he
  | .quoted d =>
    rw [Expr.eval]
    exact hP.quoted d he
  | .identifier s =>
    rw [Expr.eval]
    cases hs : env.lookup s with
    | some v => exact hP.lookup henv hs
    | none => trivial
  | .lambda site name params body =>
    rw [Expr.eval]
    exact (hP.closure _ _).mpr ⟨hP.lambda _ _ _ _ he, henv.locals⟩
  | .define _ _ | .defineStruct _ _ =>
    rw [Expr.eval]
    trivial
  | .call callee arguments =>
    obtain ⟨hcallee, harguments⟩ := hP.call _ _ he
    rw [Expr.eval]
    refine (eval hP hcall henv callee hcallee).bind fun procedure hprocedure => ?_
    refine (evalAll hP hcall henv arguments harguments).bind fun args hargs => ?_
    exact hcall procedure args hprocedure hargs
  | .branch form question answer otherwise =>
    obtain ⟨hquestion, hanswer, hotherwise⟩ := hP.branch _ _ _ _ he
    rw [Expr.eval]
    refine (eval hP hcall henv question hquestion).bind fun v _ => ?_
    split
    · exact eval hP hcall henv answer hanswer
    · exact evalElse hP hcall henv otherwise hotherwise
    · trivial

theorem evalAll (hP : Conserved P Q) (hcall : call.Keeps P) (henv : env.All P) (es : List Expr)
    (hes : ∀ e ∈ es, Q e) :
    Yields (fun vs => ∀ v ∈ vs, P v) (fun _ => True) (Expr.evalAll call env es) := by
  match es with
  | [] =>
    rw [Expr.evalAll]
    exact List.forall_mem_nil _
  | e :: rest =>
    obtain ⟨he, hrest⟩ := List.forall_mem_cons.mp hes
    rw [Expr.evalAll]
    refine (eval hP hcall henv e he).bind fun v hv => ?_
    refine (evalAll hP hcall henv rest hrest).bind fun vs hvs => ?_
    exact List.forall_mem_cons.mpr ⟨hv, hvs⟩

theorem evalElse (hP : Conserved P Q) (hcall : call.Keeps P) (henv : env.All P)
    (otherwise : Option Expr) (h : ∀ e ∈ otherwise, Q e) :
    Yields P (fun _ => True) (Expr.evalElse call env otherwise) := by
  match otherwise with
  | some e =>
    rw [Expr.evalElse]
    exact eval hP hcall henv e (h e rfl)
  | none =>
    rw [Expr.evalElse]
    trivial

end

/-! ### Calls -/

variable {t : StructType} {args : List Value}

theorem construct (hP : Conserved P Q) (ht : P (.constructor t)) (hargs : ∀ a ∈ args, P a) :
    Yields P (fun _ => True) (t.construct args) := by
  unfold StructType.construct
  split
  · exact hP.instances t args ht ‹_› hargs
  · trivial

theorem test (hP : Conserved P Q) : Yields P (fun _ => True) (t.test args) := by
  unfold StructType.test
  split
  · exact hP.simple _ rfl
  · exact hP.simple _ rfl
  · trivial

theorem access (hP : Conserved P Q) {i : Nat} (hargs : ∀ a ∈ args, P a) :
    Yields P (fun _ => True) (t.access i args) := by
  unfold StructType.access
  split
  · next u fields =>
    have hfields := hP.fields u fields (hargs _ List.mem_cons_self)
    split
    · split
      · next v hv => exact hfields v (List.mem_of_getElem? hv)
      · trivial
    · trivial
  · trivial
  · trivial

theorem call_keeps (hP : Conserved P Q) {globals : Bindings} (hglobals : ∀ b ∈ globals, P b.2)
    (depth : Nat) : Expr.Caller.Keeps P (Value.call globals depth) := by
  -- The induction is on the calls that may still be nested; a body leaves its calls to it.
  induction depth using Nat.strongRecOn with
  | ind depth ih =>
    intro v args hv hargs
    rw [Value.call.eq_def]
    cases v with
    | closure code held =>
      cases held with
      | environment i => trivial
      | bindings locals =>
        obtain ⟨hbody, hlocals⟩ := (hP.closure code locals).mp hv
        dsimp only
        split
        · cases depth with
          | zero => trivial
          | succ depth =>
            simp only [atLevel_eq]
            have henv : Environment.All P ⟨globals, Bindings.bind locals code.params args⟩ :=
              ⟨hglobals, mem_bind hargs hlocals⟩
            exact hP.eval (ih depth (Nat.lt_succ_self depth)) henv code.body hbody
        · trivial
    | primitive p => exact (p.apply_value hP.toListClosed hargs).mapError fun _ h => h
    | constructor t => exact hP.construct hv hargs
    | predicate t => exact hP.test
    | accessor t i => exact hP.access hargs
    | _ => trivial

end Conserved

end BeginningStudent
