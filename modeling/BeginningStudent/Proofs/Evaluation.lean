import BeginningStudent.Proofs.Definitions
import BeginningStudent.Session

/-!
# Evaluation of resolved expressions

When the definitions of the top level fit what resolution knows about their names (`Fits`), the
evaluation of a resolved expression gives a well-formed value or fails with an error of the
student's making (`Expr.eval_sound`, `Value.call_sound`). The one fault it can come to is the use of
a name that has been registered while its definition was never executed.
-/

namespace BeginningStudent

/-! ### Well-formed values -/

namespace Value

/-- Is a call of the value with `n` arguments let through before the run? -/
def admits : Value → Nat → Bool
  | .closure code _, n => n == code.params.length
  | .primitive p, n => p.arity.admits n
  | .constructor t, n => n == t.fields.length
  | .predicate _, n | .accessor _ _, n => n == 1
  | _, _ => false

/-- Pairs begin lists, the bodies of closures are resolved in the scope of what they hold, instances
have the fields of their type, and accessors belong to a field. -/
inductive WellFormed (top : Scope) : Value → Prop
  | flat {v} (hv : v.isFlat = true) : WellFormed top v
  | pair {first rest} (hfirst : WellFormed top first) (hrest : WellFormed top rest)
    (hl : rest.isList = true) : WellFormed top (.pair first rest)
  | closure {code locals} (hl : ∀ b ∈ locals, WellFormed top b.2)
    (hb : code.body.Resolved top (code.params.reverse ++ locals.map Prod.fst)) :
    WellFormed top (.closure code (.bindings locals))
  | primitive {p} : WellFormed top (.primitive p)
  | constructor {t} : WellFormed top (.constructor t)
  | predicate {t} : WellFormed top (.predicate t)
  | accessor {t i} (hi : i < t.fields.length) : WellFormed top (.accessor t i)
  | structType {t} : WellFormed top (.structType t)
  | record {t fields} (hn : fields.length = t.fields.length) (hf : ∀ v ∈ fields, WellFormed top v) :
    WellFormed top (.record t fields)

theorem WellFormed.fields {top : Scope} {t : StructType} {fields : List Value}
    (h : WellFormed top (.record t fields)) :
    fields.length = t.fields.length ∧ ∀ v ∈ fields, v.WellFormed top := by
  cases h with
  | flat hv => simp [isFlat] at hv
  | record hn hf => exact ⟨hn, hf⟩

theorem WellFormed.closure_inv {top : Scope} {code : Lambda} {held : Capture Value}
    (h : WellFormed top (.closure code held)) :
    ∃ locals, held = .bindings locals ∧ (∀ b ∈ locals, b.2.WellFormed top) ∧
      code.body.Resolved top (code.params.reverse ++ locals.map Prod.fst) := by
  cases h with
  | flat hv => simp [isFlat] at hv
  | @closure _ locals hl hb => exact ⟨locals, rfl, hl, hb⟩

theorem WellFormed.accessor_inv {top : Scope} {t : StructType} {i : Nat}
    (h : WellFormed top (.accessor t i)) : i < t.fields.length := by
  cases h with
  | flat hv => simp [isFlat] at hv
  | accessor hi => exact hi

theorem WellFormed.mono {top top' : Scope} {v : Value} (hv : v.WellFormed top)
    (htop : top'.Extends top) : v.WellFormed top' := by
  induction hv with
  | flat hv => exact .flat hv
  | pair _ _ hl ihfirst ihrest => exact .pair ihfirst ihrest hl
  | closure _ hb ih => exact .closure ih (hb.mono htop)
  | primitive => exact .primitive
  | constructor => exact .constructor
  | predicate => exact .predicate
  | accessor hi => exact .accessor hi
  | structType => exact .structType
  | record hn _ ih => exact .record hn ih

theorem wellFormed_listClosed (top : Scope) : ListClosed (WellFormed top) where
  simple _ hv := .flat hv.isFlat
  pair _ _ hfirst hrest hl := .pair hfirst hrest hl
  parts first rest h := by
    cases h with
    | flat hv => simp [isFlat] at hv
    | pair hfirst hrest _ => exact ⟨hfirst, hrest⟩

end Value

/-! ### Definitions that fit their names -/

/-- The value can be called whenever resolution lets a call of the name through. -/
def Kind.Suits (k : Kind) (v : Value) : Prop := ∀ n, k.admits n = true → v.admits n = true

/-- The definitions of the top level are well-formed and can be called as their names say. -/
structure Fits (top : Scope) (globals : Bindings) : Prop where
  wellFormed : ∀ b ∈ globals, b.2.WellFormed top
  suits : ∀ s v, globals.lookup s = some v → ∃ k, top.lookup s = some k ∧ k.Suits v
  noBuiltin : top.NoBuiltin

/-- The name is registered, but there is no definition of it. -/
def Missing (top : Scope) (globals : Bindings) (s : String) : Prop :=
  top.lookup s ≠ none ∧ globals.lookup s = none

theorem fits_nil : Fits [] [] where
  wellFormed := by simp
  suits := by simp
  noBuiltin := by simp [Scope.NoBuiltin]

theorem mem_of_lookup {α : Type} {s : String} {v : α} {bs : List (String × α)}
    (h : bs.lookup s = some v) : (s, v) ∈ bs := by
  obtain ⟨l₁, l₂, rfl, -⟩ := List.lookup_eq_some_iff.mp h
  simp

theorem Kind.ofBuiltin?_suits {top : Scope} {s : String} {k : Kind} (h : ofBuiltin? s = some k) :
    ∃ v, Value.builtin? s = some v ∧ v.WellFormed top ∧ k.Suits v := by
  have hflat : ∀ c ∈ Constant.all, (Value.ofDatum c.2).isFlat = true := by decide
  unfold ofBuiltin? at h
  unfold Value.builtin?
  cases hp : Primitive.ofName? s with
  | some p =>
    rw [hp] at h
    cases h
    exact ⟨.primitive p, rfl, .primitive, fun n hn => hn⟩
  | none =>
    rw [hp] at h
    dsimp only at h
    split at h
    · next hs =>
      cases h
      obtain ⟨d, hd⟩ := Option.isSome_iff_exists.mp hs
      refine ⟨.ofDatum d, by simp [hd], .flat (hflat _ (mem_of_lookup hd)), ?_⟩
      intro n hn
      cases hn
    · cases h

theorem Value.builtin?_eq_none {s : String} (h : Kind.ofBuiltin? s = none) :
    Value.builtin? s = none := by
  unfold Kind.ofBuiltin? at h
  split at h
  · cases h
  · split at h
    · cases h
    · next hp hs =>
      have hc : Constant.all.lookup s = none := Option.not_isSome_iff_eq_none.mp hs
      simp only [Value.builtin?, hp, hc]
      rfl

variable {top : Scope} {globals : Bindings}

theorem Fits.lookup (h : Fits top globals) {locals : Bindings} {s : String} {k : Kind}
    (hs : s ∉ locals.map Prod.fst) (hk : top.kind? s = some k) :
    (∃ v, (Environment.mk globals locals).lookup s = some v ∧ v.WellFormed top ∧ k.Suits v) ∨
      (Environment.mk globals locals).lookup s = none ∧ Missing top globals s := by
  have hlocals : locals.lookup s = none := SymbolTable.lookup_eq_none.mpr hs
  have hlookup : (Environment.mk globals locals).lookup s =
      (globals.lookup s).or (Value.builtin? s) := by
    simp [Environment.lookup, hlocals]
  rw [hlookup]
  cases hg : globals.lookup s with
  | some v =>
    obtain ⟨k', hk', hsuits⟩ := h.suits s v hg
    obtain rfl : k' = k := by simpa [Scope.kind?, hk'] using hk
    exact .inl ⟨v, rfl, h.wellFormed _ (mem_of_lookup hg), hsuits⟩
  | none =>
    cases ht : top.lookup s with
    | some k' =>
      have hb : Value.builtin? s = none := Value.builtin?_eq_none (h.noBuiltin s k' ht)
      exact .inr ⟨hb, by simp [ht], hg⟩
    | none =>
      have hb : Kind.ofBuiltin? s = some k := by simpa [Scope.kind?, ht] using hk
      exact .inl (Kind.ofBuiltin?_suits hb)

/-! ### Errors that resolution does not exclude -/

/-- Is the error one that a resolved program can end in? Names without a definition are those in
`missing`; a wrong number of arguments is found only by primitives that take any number of them
from some minimum on; and accessors reject only what is not of their structure type. -/
def EvalError.Allowed (missing : String → Prop) : EvalError → Prop
  | .primitive p fault => fault.isArity = true → ∃ m, p.arity = .atLeast m
  | .notInstance t i v => i < t.fields.length ∧ ∀ fields, v ≠ .record t fields
  | .unbound s => missing s
  | .arity _ _ _ | .constructorArity _ _ => False
  | .notProcedure _ | .nestedDefinition | .missingField _ _ => False
  | .notBoolean _ _ | .allFalse | .testFailed _ _ | .tooDeep => True

/-- A well-formed value, or an error that a resolved program can end in. -/
def Sound (top : Scope) (globals : Bindings) : Except EvalError Value → Prop :=
  Yields (Value.WellFormed top) (EvalError.Allowed (Missing top globals))

namespace StructType

variable {t : StructType} {args : List Value}

theorem construct_sound (hn : args.length = t.fields.length)
    (hargs : ∀ v ∈ args, v.WellFormed top) : Sound top globals (t.construct args) := by
  rw [construct, if_pos hn]
  exact .record hn hargs

theorem test_sound (hn : args.length = 1) : Sound top globals (t.test args) := by
  obtain ⟨v, rfl⟩ := List.length_eq_one_iff.mp hn
  cases v <;> exact .flat rfl

theorem access_sound {i : Nat} (hi : i < t.fields.length) (hn : args.length = 1)
    (hargs : ∀ v ∈ args, v.WellFormed top) : Sound top globals (t.access i args) := by
  obtain ⟨v, rfl⟩ := List.length_eq_one_iff.mp hn
  have hv := hargs v List.mem_cons_self
  cases v with
  | record u fields =>
    obtain ⟨hlen, hfields⟩ := hv.fields
    rw [access]
    split
    · next heq =>
      subst heq
      rw [List.getElem?_eq_getElem (by omega)]
      exact hfields _ (List.getElem_mem _)
    · next hne =>
      refine ⟨hi, fun fields h => ?_⟩
      cases h
      exact hne rfl
  | _ => exact ⟨hi, by rintro _ ⟨⟩⟩

end StructType

/-! ### Expressions and calls -/

theorem map_fst_bind {locals : Bindings} {params : List String} {args : List Value}
    (hn : args.length = params.length) :
    (Bindings.bind locals params args).map Prod.fst = params.reverse ++ locals.map Prod.fst := by
  rw [Bindings.bind, List.map_append, List.map_reverse, List.map_fst_zip (by omega)]

theorem mem_bind {locals : Bindings} {params : List String} {args : List Value} {P : Value → Prop}
    (hargs : ∀ v ∈ args, P v) (hlocals : ∀ b ∈ locals, P b.2) :
    ∀ b ∈ Bindings.bind locals params args, P b.2 := by
  intro b hb
  rcases List.mem_append.mp hb with hb | hb
  · exact hargs _ (List.of_mem_zip (List.mem_reverse.mp hb)).2
  · exact hlocals b hb

namespace Expr

variable {call : Caller} {locals : Bindings}

theorem evalAll_sound {es : List Expr}
    (hes : ∀ e ∈ es, Sound top globals (e.eval call ⟨globals, locals⟩)) :
    Yields (fun vs => vs.length = es.length ∧ ∀ v ∈ vs, v.WellFormed top)
      (EvalError.Allowed (Missing top globals)) (evalAll call ⟨globals, locals⟩ es) := by
  induction es with
  | nil => exact ⟨rfl, by simp⟩
  | cons e es ih =>
    refine (hes e List.mem_cons_self).bind fun v hv => ?_
    refine (ih fun e he => hes e (List.mem_cons_of_mem _ he)).bind fun vs hvs => ?_
    refine ⟨by simp [hvs.1], fun w hw => ?_⟩
    rcases List.mem_cons.mp hw with rfl | hw
    · exact hv
    · exact hvs.2 w hw

/-- The value of a resolved expression, as long as calls that resolution lets through are sound. -/
theorem eval_sound {ps : List String} {e : Expr} (he : e.Resolved top ps)
    (hfits : Fits top globals) (hps : locals.map Prod.fst = ps)
    (hlocals : ∀ b ∈ locals, b.2.WellFormed top)
    (hcall : ∀ v args, v.WellFormed top → (∀ a ∈ args, a.WellFormed top) →
      v.admits args.length = true → Sound top globals (call v args)) :
    Sound top globals (e.eval call ⟨globals, locals⟩) := by
  induction he with
  | literal hd => exact .flat hd
  | quoted hd => exact .flat hd
  | @parameter ps s hs =>
    subst hps
    rw [eval, Environment.lookup]
    have hsome : locals.lookup s ≠ none := fun hnone => SymbolTable.lookup_eq_none.mp hnone hs
    obtain ⟨v, hv⟩ := Option.ne_none_iff_exists'.mp hsome
    rw [hv]
    exact hlocals _ (mem_of_lookup hv)
  | global hs hk hr =>
    subst hps
    rw [eval]
    rcases hfits.lookup hs hk with ⟨v, hv, hwf, -⟩ | ⟨hnone, hmissing⟩
    · rw [hv]
      exact hwf
    · rw [hnone]
      exact hmissing
  | call hs hk hn _ iha =>
    -- The callee is looked up before the arguments are evaluated.
    subst hps
    rw [eval, eval]
    rcases hfits.lookup hs hk with ⟨v, hv, hwf, hsuits⟩ | ⟨hnone, hmissing⟩
    · rw [hv]
      refine (evalAll_sound fun e he => iha e he rfl).bind fun vs hvs => ?_
      exact hcall v vs hwf hvs.2 (hsuits _ (hvs.1 ▸ hn))
    · rw [hnone]
      exact hmissing
  | lambda hps' hne hnd hb _ =>
    subst hps
    exact .closure hlocals hb
  | @branch ps form question answer otherwise hq ha ho hf ihq iha iho =>
    rw [eval]
    refine (ihq hps).bind fun v hv => ?_
    split
    · exact iha hps
    · cases otherwise with
      | none => trivial
      | some e => exact iho e rfl hps
    · trivial

end Expr

namespace Value

theorem call_sound (hfits : Fits top globals) (depth : Nat) {v : Value} {args : List Value}
    (hv : v.WellFormed top) (hargs : ∀ a ∈ args, a.WellFormed top)
    (hn : v.admits args.length = true) : Sound top globals (call globals depth v args) := by
  -- The induction is on the calls that may still be nested. Inside of a body it is the one on the
  -- judgement, which leaves its calls to this one.
  induction depth using Nat.strongRecOn generalizing v args with
  | ind depth ih =>
    cases v with
    | closure code held =>
      obtain ⟨locals, rfl, hlocals, hbody⟩ := hv.closure_inv
      have hlen : args.length = code.params.length := by simpa [admits] using hn
      rw [call.eq_def]
      dsimp only
      rw [if_pos hlen]
      cases depth with
      | zero => trivial
      | succ depth =>
        simp only [atLevel_eq]
        exact Expr.eval_sound hbody hfits (map_fst_bind hlen) (mem_bind hargs hlocals)
          fun v args hv hargs hn => ih depth (Nat.lt_succ_self depth) hv hargs hn
    | primitive p =>
      rw [call.eq_def]
      exact (p.apply_keeps (wellFormed_listClosed top) hargs hn).mapError fun _ h => h
    | constructor t =>
      rw [call.eq_def]
      exact t.construct_sound (by simpa [admits] using hn) hargs
    | predicate t =>
      rw [call.eq_def]
      exact t.test_sound (by simpa [admits] using hn)
    | accessor t i =>
      rw [call.eq_def]
      exact t.access_sound hv.accessor_inv (by simpa [admits] using hn) hargs
    | _ => simp [admits] at hn

end Value

end BeginningStudent
