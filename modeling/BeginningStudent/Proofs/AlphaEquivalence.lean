import BeginningStudent.Error
import BeginningStudent.Proofs.Pruning
import BeginningStudent.Proofs.Simulation

/-!
# Programs that differ in the names of parameters

Two expressions are alpha-equivalent when they are the same but for the names of parameters, and
each name stands for the same parameter in both (`Expr.Alpha`). The bindings of the parameters around
them then differ in names as well, and so do the closures that hold such bindings
(`Value.Renamed`). Evaluation does not tell them apart (`Surroundings.eval_alpha`), and interpreters
show the same answers to commands that are alpha-equivalent (`Interpreter.answers_alpha`).
-/

namespace BeginningStudent

/-! ### Names -/

/-- Pairs of names that are bound by the same parameter, the innermost first. -/
abbrev Pairing := List (String × String)

/-- The names stand for the same parameter, or are the same name and stand for none. -/
inductive Pairing.Matches : Pairing → String → String → Prop
  | free {s} : Matches [] s s
  | here {Γ s s'} : Matches ((s, s') :: Γ) s s'
  | outer {Γ r r' s s'} (hs : s ≠ r) (hs' : s' ≠ r') (h : Matches Γ s s') :
    Matches ((r, r') :: Γ) s s'

def Pairing.params (ps ps' : List String) : Pairing := (ps.zip ps').reverse

/-- The second expression is the first with other names of parameters. The pairs are those of the
parameters around them. -/
inductive Expr.Alpha : Pairing → Expr → Expr → Prop
  | literal {Γ d} : Alpha Γ (.literal d) (.literal d)
  | quoted {Γ d} : Alpha Γ (.quoted d) (.quoted d)
  | identifier {Γ s s'} (h : Γ.Matches s s') : Alpha Γ (.identifier s) (.identifier s')
  | lambda {Γ site name params params' body body'} (hn : params.length = params'.length)
    (hb : Alpha (.params params params' ++ Γ) body body') :
    Alpha Γ (.lambda site name params body) (.lambda site name params' body')
  | call {Γ callee callee' arguments arguments'} (hc : Alpha Γ callee callee')
    (hn : arguments.length = arguments'.length)
    (ha : ∀ e e', (e, e') ∈ arguments.zip arguments' → Alpha Γ e e') :
    Alpha Γ (.call callee arguments) (.call callee' arguments')
  | branch {Γ form question question' answer answer' otherwise otherwise'}
    (hq : Alpha Γ question question') (ha : Alpha Γ answer answer')
    (hn : otherwise.isSome = otherwise'.isSome)
    (ho : ∀ e ∈ otherwise, ∀ e' ∈ otherwise', Alpha Γ e e') :
    Alpha Γ (.branch form question answer otherwise) (.branch form question' answer' otherwise')
  | define {Γ s e e'} (h : Alpha Γ e e') : Alpha Γ (.define s e) (.define s e')
  | defineStruct {Γ s fields} : Alpha Γ (.defineStruct s fields) (.defineStruct s fields)

/-! ### Values -/

def Bindings.pairing (locals locals' : Bindings) : Pairing :=
  (locals.zip locals').map fun b => (b.1.1, b.2.1)

/-- The values are the same but for the names of parameters in the code of closures, and of what
closures hold. -/
inductive Value.Renamed : Value → Value → Prop
  | atom {v} (hv : v.isAtom = true) : Renamed v v
  | pair {a a' b b'} (ha : Renamed a a') (hb : Renamed b b') : Renamed (.pair a b) (.pair a' b')
  | closure {site name params params' body body' locals locals'}
    (hn : params.length = params'.length)
    (hb : Expr.Alpha (.params params params' ++ Bindings.pairing locals locals') body body')
    (hlength : locals.length = locals'.length)
    (hl : ∀ b b', (b, b') ∈ locals.zip locals' → Renamed b.2 b'.2) :
    Renamed (.closure ⟨site, name, params, body⟩ (.bindings locals))
      (.closure ⟨site, name, params', body'⟩ (.bindings locals'))
  | record {t fields fields'} (hn : fields.length = fields'.length)
    (hf : ∀ v v', (v, v') ∈ fields.zip fields' → Renamed v v') :
    Renamed (.record t fields) (.record t fields')

/-- The closures are the same but for the names of parameters. -/
def SameClosure : ClosureRel := fun c c' => Value.Renamed (.closure c.1 c.2) (.closure c'.1 c'.2)

namespace Value

theorem Renamed.alike {v v' : Value} (h : Renamed v v') : Alike SameClosure v v' := by
  induction h with
  | atom hv => exact .atom hv
  | pair _ _ ihfirst ihrest => exact .pair ihfirst ihrest
  | closure hn hb hlength hl _ => exact .closure (.closure hn hb hlength hl)
  | record hn _ ih => exact .record hn ih

theorem Alike.renamed {v v' : Value} (h : Alike SameClosure v v') : Renamed v v' := by
  induction h with
  | atom hv => exact .atom hv
  | pair _ _ ihfirst ihrest => exact .pair ihfirst ihrest
  | closure h => exact h
  | record hn _ ih => exact .record hn ih

end Value

open Value

theorem sameClosure_named : Named SameClosure := by
  rintro ⟨code, held⟩ ⟨code', held'⟩ h
  cases h with
  | atom hv => cases hv
  | closure => exact ⟨rfl, rfl⟩

/-! ### Bindings of parameters -/

inductive Bindings.Paired : Pairing → Bindings → Bindings → Prop
  | nil : Paired [] [] []
  | cons {Γ bs bs' s s' v v'} (hv : Value.Alike SameClosure v v') (h : Paired Γ bs bs') :
    Paired ((s, s') :: Γ) ((s, v) :: bs) ((s', v') :: bs')

namespace Bindings.Paired

variable {Γ Δ : Pairing} {bs bs' cs cs' : Bindings}

theorem append (h : Paired Γ bs bs') (h' : Paired Δ cs cs') :
    Paired (Γ ++ Δ) (bs ++ cs) (bs' ++ cs') := by
  induction h with
  | nil => exact h'
  | cons hv _ ih => exact .cons hv ih

theorem reverse (h : Paired Γ bs bs') : Paired Γ.reverse bs.reverse bs'.reverse := by
  induction h with
  | nil => exact .nil
  | cons hv _ ih =>
    rw [List.reverse_cons, List.reverse_cons, List.reverse_cons]
    exact ih.append (.cons hv .nil)

theorem zip {params params' : List String} {args args' : List Value}
    (hargs : AllAlike SameClosure args args') (hn : params.length = params'.length)
    (hlength : args.length = params.length) :
    Paired (params.zip params') (params.zip args) (params'.zip args') := by
  induction hargs generalizing params params' with
  | nil =>
    obtain rfl := List.length_eq_zero_iff.mp hlength.symm
    obtain rfl := List.length_eq_zero_iff.mp hn.symm
    exact .nil
  | cons hv _ ih =>
    obtain ⟨s, params, rfl⟩ := List.exists_cons_of_length_eq_add_one hlength.symm
    obtain ⟨s', params', rfl⟩ := List.exists_cons_of_length_eq_add_one hn.symm
    exact .cons hv (ih (by simpa using hn) (by simpa using hlength))

theorem length_eq (h : Paired Γ bs bs') : bs.length = bs'.length := by
  induction h with
  | nil => rfl
  | cons _ _ ih => rw [List.length_cons, List.length_cons, ih]

theorem pairing_eq (h : Paired Γ bs bs') : Bindings.pairing bs bs' = Γ := by
  induction h with
  | nil => rfl
  | cons _ _ ih =>
    rw [← ih]
    rfl

theorem values (h : Paired Γ bs bs') : ∀ b b', (b, b') ∈ bs.zip bs' → Value.Alike SameClosure b.2 b'.2 := by
  induction h with
  | nil => simp
  | cons hv _ ih =>
    intro b b' hb
    rcases List.mem_cons.mp hb with hb | hb
    · cases hb
      exact hv
    · exact ih b b' hb

theorem of_values (hlength : bs.length = bs'.length)
    (h : ∀ b b', (b, b') ∈ bs.zip bs' → Value.Alike SameClosure b.2 b'.2) :
    Paired (Bindings.pairing bs bs') bs bs' := by
  induction bs generalizing bs' with
  | nil =>
    obtain rfl := List.length_eq_zero_iff.mp hlength.symm
    exact .nil
  | cons b bs ih =>
    obtain ⟨b', bs', rfl⟩ := List.exists_cons_of_length_eq_add_one hlength.symm
    have hrest := ih (by simpa using hlength) fun c c' hc => h c c' (List.mem_cons_of_mem _ hc)
    exact .cons (h b b' List.mem_cons_self) hrest

/-- Names that match have values that are alike, or are the same and have none. -/
theorem lookup (h : Paired Γ bs bs') {s s' : String} (hs : Γ.Matches s s') :
    (∃ v v', bs.lookup s = some v ∧ bs'.lookup s' = some v' ∧ Value.Alike SameClosure v v') ∨
      s = s' ∧ bs.lookup s = none ∧ bs'.lookup s' = none := by
  induction h with
  | nil =>
    cases hs
    exact .inr ⟨rfl, rfl, rfl⟩
  | @cons Γ bs bs' r r' v v' hv _ ih =>
    rw [List.lookup_cons, List.lookup_cons]
    cases hs with
    | here => exact .inl ⟨v, v', by simp, by simp, hv⟩
    | outer hr hr' hs =>
      rw [beq_false_of_ne hr, beq_false_of_ne hr']
      exact ih hs

end Bindings.Paired

theorem Bindings.Paired.bind {Γ : Pairing} {locals locals' : Bindings}
    (h : Paired Γ locals locals') {params params' : List String} {args args' : List Value}
    (hargs : AllAlike SameClosure args args') (hn : params.length = params'.length)
    (hlength : args.length = params.length) :
    Paired (.params params params' ++ Γ) (Bindings.bind locals params args)
      (Bindings.bind locals' params' args') :=
  (Paired.zip hargs hn hlength).reverse.append h

/-! ### Evaluation -/

section

variable {Γ : Pairing} {globals globals' locals locals' : Bindings} {call call' : Expr.Caller}

def Expr.Caller.Alike (call call' : Expr.Caller) : Prop :=
  ∀ v v' args args', Value.Alike SameClosure v v' → AllAlike SameClosure args args' →
    ResultsAlike SameClosure (call v args) (call' v' args')

theorem evalAll_alpha {env env' : Environment} {es es' : List Expr} (hn : es.length = es'.length)
    (h : ∀ e e', (e, e') ∈ es.zip es' →
      ResultsAlike SameClosure (e.eval call env) (e'.eval call' env')) :
    Agrees (AllAlike SameClosure) (EvalError.Alike SameClosure) (Expr.evalAll call env es)
      (Expr.evalAll call' env' es') := by
  induction es generalizing es' with
  | nil =>
    obtain rfl := List.length_eq_zero_iff.mp hn.symm
    rw [Expr.evalAll, Expr.evalAll]
    exact .ok .nil
  | cons e es ih =>
    obtain ⟨e', es', rfl⟩ := List.exists_cons_of_length_eq_add_one hn.symm
    rw [Expr.evalAll, Expr.evalAll]
    refine (h e e' List.mem_cons_self).bind fun v v' hv => ?_
    have hrest := ih (by simpa using hn) fun d d' hd => h d d' (List.mem_cons_of_mem _ hd)
    exact hrest.bind fun vs vs' hvs => .ok (.cons hv hvs)

theorem evalElse_alpha {env env' : Environment} {otherwise otherwise' : Option Expr}
    (hn : otherwise.isSome = otherwise'.isSome)
    (h : ∀ e ∈ otherwise, ∀ e' ∈ otherwise',
      ResultsAlike SameClosure (e.eval call env) (e'.eval call' env')) :
    ResultsAlike SameClosure (Expr.evalElse call env otherwise)
      (Expr.evalElse call' env' otherwise') := by
  cases otherwise with
  | none =>
    obtain rfl := Option.isNone_iff_eq_none.mp (by simpa using hn.symm)
    rw [Expr.evalElse, Expr.evalElse]
    exact .error .refl
  | some e =>
    obtain ⟨e', rfl⟩ := Option.isSome_iff_exists.mp hn.symm
    rw [Expr.evalElse, Expr.evalElse]
    exact h e rfl e' rfl

theorem lookup_alpha (hglobals : globals.Alike SameClosure globals')
    (hlocals : Bindings.Paired Γ locals locals') {s s' : String} (hs : Γ.Matches s s') :
    (∃ v v', (Environment.mk globals locals).lookup s = some v ∧
      (Environment.mk globals' locals').lookup s' = some v' ∧ Value.Alike SameClosure v v') ∨
    s = s' ∧ (Environment.mk globals locals).lookup s = none ∧
      (Environment.mk globals' locals').lookup s' = none := by
  unfold Environment.lookup
  rcases hlocals.lookup hs with ⟨v, v', hv, hv', halike⟩ | ⟨rfl, hnone, hnone'⟩
  · dsimp only
    rw [hv, hv']
    exact .inl ⟨v, v', rfl, rfl, halike⟩
  · have hbuiltin : Option.Rel (Value.Alike SameClosure) (builtin? s) (builtin? s) := by
      cases hb : builtin? s with
      | none => exact .none
      | some v => exact .some (alike_builtin hb)
    have htop := orElse_rel (hglobals.lookup s) hbuiltin
    dsimp only
    rw [hnone, hnone']
    generalize (globals.lookup s <|> builtin? s) = x, (globals'.lookup s <|> builtin? s) = y at htop
    cases htop with
    | some h => exact .inl ⟨_, _, rfl, rfl, h⟩
    | none => exact .inr ⟨rfl, rfl, rfl⟩

/-- Expressions that are alpha-equivalent have values that are alike, where the calls do. -/
theorem Expr.Alpha.eval {e e' : Expr} (h : Expr.Alpha Γ e e') (hcall : call.Alike call')
    (hglobals : globals.Alike SameClosure globals') (hlocals : Bindings.Paired Γ locals locals') :
    ResultsAlike SameClosure (e.eval call ⟨globals, locals⟩) (e'.eval call' ⟨globals', locals'⟩) := by
  induction h with
  | literal | quoted =>
    rw [Expr.eval, Expr.eval]
    exact .ok (alike_ofDatum _)
  | identifier hs =>
    rw [Expr.eval, Expr.eval]
    rcases lookup_alpha hglobals hlocals hs with ⟨v, v', hv, hv', halike⟩ | ⟨rfl, hnone, hnone'⟩
    · rw [hv, hv']
      exact .ok halike
    · rw [hnone, hnone']
      exact .error .refl
  | lambda hn hb _ =>
    rw [Expr.eval, Expr.eval]
    refine .ok (.closure (.closure hn ?_ hlocals.length_eq fun b b' hb => ?_))
    · rwa [hlocals.pairing_eq]
    · exact (hlocals.values b b' hb).renamed
  | call _ hn _ ihc iha =>
    rw [Expr.eval, Expr.eval]
    refine (ihc hlocals).bind fun procedure procedure' hprocedure => ?_
    refine (evalAll_alpha hn fun e e' he => iha e e' he hlocals).bind fun args args' hargs => ?_
    exact hcall _ _ _ _ hprocedure hargs
  | branch _ _ hn _ ihq iha iho =>
    rw [Expr.eval, Expr.eval]
    refine (ihq hlocals).bind fun v v' hv => ?_
    cases hv with
    | @atom v hv =>
      cases v with
      | boolean b =>
        cases b with
        | true => exact iha hlocals
        | false => exact evalElse_alpha hn fun e he e' he' => iho e he e' he' hlocals
      | _ => exact .error (.notBoolean (.atom hv))
    | pair hfirst hrest => exact .error (.notBoolean (.pair hfirst hrest))
    | closure hc => exact .error (.notBoolean (.closure hc))
    | record hn hf => exact .error (.notBoolean (.record hn hf))
  | define | defineStruct =>
    rw [Expr.eval, Expr.eval]
    exact .error .refl

/-- Calls of values that are alike have results that are. -/
theorem call_alpha (hglobals : globals.Alike SameClosure globals') (depth : Nat) :
    Expr.Caller.Alike (Value.call globals depth) (Value.call globals' depth) := by
  induction depth using Nat.strongRecOn with
  | ind depth ih =>
    intro v v' args args' hv hargs
    by_cases hclosure : ∃ code held, v' = .closure code held
    · obtain ⟨code', held', rfl⟩ := hclosure
      cases hv with
      | atom hv => cases hv
      | closure h =>
        cases h with
        | atom hv => cases hv
        | @closure site name params params' body body' locals locals' hn hb hlength hl =>
          have hlocals : Bindings.Paired (Bindings.pairing locals locals') locals locals' :=
            .of_values hlength fun b b' hb => (hl b b' hb).alike
          rw [Value.call.eq_def, Value.call.eq_def]
          dsimp only
          rw [← hargs.length_eq, ← hn]
          split
          · next hcount =>
            cases depth with
            | zero => exact .error .refl
            | succ depth =>
              simp only [atLevel_eq]
              exact hb.eval (ih depth (Nat.lt_succ_self depth)) hglobals
                (hlocals.bind hargs hn hcount)
          · exact .error .refl
    · exact call_alike sameClosure_named hv hargs fun code held h => hclosure ⟨code, held, h⟩

end

/-! ### Interpreters -/

/-- The definitions of the interpreters are the same but for the names of parameters. -/
structure Interpreter.Alike (m m' : Interpreter) : Prop where
  globals : m.globals.Alike SameClosure m'.globals
  nextSerial : m.nextSerial = m'.nextSerial
  maxDepth : m.maxDepth = m'.maxDepth

inductive Command.Alpha : Command → Command → Prop
  | form {e e'} (h : Expr.Alpha [] e e') : Alpha (.form e) (.form e')
  | test {actual actual' expected expected'} (hactual : Expr.Alpha [] actual actual')
    (hexpected : Expr.Alpha [] expected expected') :
    Alpha (.test ⟨actual, expected⟩) (.test ⟨actual', expected'⟩)

inductive Answer where
  /-- The text of a value, and the number that it is if it is one. -/
  | value (text : String) (number : Option Number)
  | defined
  | passed
  | error (kind : ErrorKind) (message : String)

def Answer.of : Except EvalError Outcome → Answer
  | .ok (.value v) => .value v.text (Argument.number v).toOption
  | .ok .defined => .defined
  | .ok .passed => .passed
  | .error e => .error e.kind e.message

theorem Answer.of_value {v v' : Value} (h : Value.Alike SameClosure v v') :
    of (.ok (.value v)) = of (.ok (.value v')) := by
  have hnumber := Argument.number_blind v v' h
  rw [of, of, h.text_eq sameClosure_named]
  generalize Argument.number v = x, Argument.number v' = y at hnumber
  cases hnumber with
  | ok h => rw [h]
  | error _ => rfl

theorem EvalError.Alike.kind_eq {C : ClosureRel} {e e' : EvalError} (h : e.Alike C e') :
    e.kind = e'.kind := by
  cases h with
  | primitive h => cases h <;> rfl
  | _ => rfl

theorem Answer.of_error {e e' : EvalError} (h : EvalError.Alike SameClosure e e') :
    of (.error e) = of (.error e') := by
  rw [of, of, h.kind_eq, h.message_eq sameClosure_named]

namespace Interpreter

variable {m m' : Interpreter}

theorem start_alike (maxDepth : Nat) : (start maxDepth).Alike (start maxDepth) := ⟨.nil, rfl, rfl⟩

/-- What comes of commands that show the same. -/
def ShowSame (x y : Interpreter × Except EvalError Outcome) : Prop :=
  x.1.Alike y.1 ∧ Answer.of x.2 = Answer.of y.2

namespace Alike

variable {s : String} {e e' actual actual' expected expected' : Expr}

theorem eval (h : m.Alike m') (he : Expr.Alpha [] e e') :
    ResultsAlike SameClosure (m.eval e) (m'.eval e') := by
  unfold Interpreter.eval
  rw [h.maxDepth]
  exact he.eval (call_alpha h.globals m'.maxDepth) h.globals .nil

theorem define (h : m.Alike m') (s : String) (he : Expr.Alpha [] e e') :
    ShowSame (m.step (.form (.define s e))) (m'.step (.form (.define s e'))) := by
  have hv := h.eval he
  rw [Interpreter.step, Interpreter.step, execute, execute]
  generalize m.eval e = x, m'.eval e' = y at hv
  cases hv with
  | ok hv => exact ⟨⟨.cons ⟨rfl, hv⟩ h.globals, h.nextSerial, h.maxDepth⟩, rfl⟩
  | error herr => exact ⟨h, Answer.of_error herr⟩

theorem defineStruct (h : m.Alike m') (s : String) (fields : List String) :
    ShowSame (m.step (.form (.defineStruct s fields))) (m'.step (.form (.defineStruct s fields))) := by
  refine ⟨⟨?_, congrArg (· + 1) h.nextSerial, h.maxDepth⟩, rfl⟩
  have hbindings := (StructType.mk m.nextSerial s fields).bindings_alike (C := SameClosure)
  change Bindings.Alike SameClosure
    ((StructType.mk m.nextSerial s fields).bindings.reverse ++ m.globals)
    ((StructType.mk m'.nextSerial s fields).bindings.reverse ++ m'.globals)
  rw [← h.nextSerial]
  exact List.rel_append (List.rel_reverse hbindings) h.globals

theorem expression (h : m.Alike m') (he : Expr.Alpha [] e e') (hd : e.isDefinition = false)
    (hd' : e'.isDefinition = false) : ShowSame (m.step (.form e)) (m'.step (.form e')) := by
  have hv := h.eval he
  rw [Interpreter.step, Interpreter.step, execute_of_not_definition hd,
    execute_of_not_definition hd']
  generalize m.eval e = x, m'.eval e' = y at hv
  cases hv with
  | ok hv => exact ⟨h, Answer.of_value hv⟩
  | error herr => exact ⟨h, Answer.of_error herr⟩

theorem test (h : m.Alike m') (hactual : Expr.Alpha [] actual actual')
    (hexpected : Expr.Alpha [] expected expected') :
    ShowSame (m.step (.test ⟨actual, expected⟩)) (m'.step (.test ⟨actual', expected'⟩)) := by
  have hresult : Agrees (fun _ _ => True) (EvalError.Alike SameClosure)
      (m.runTest ⟨actual, expected⟩) (m'.runTest ⟨actual', expected'⟩) := by
    refine (h.eval hactual).bind fun v v' hv => ?_
    refine (h.eval hexpected).bind fun w w' hw => ?_
    rw [hv.equal_eq sameClosure_named hw]
    split
    · exact .ok trivial
    · exact .error (.testFailed hv hw)
  refine ⟨h, ?_⟩
  rw [Interpreter.step, Interpreter.step]
  generalize m.runTest ⟨actual, expected⟩ = x, m'.runTest ⟨actual', expected'⟩ = y at hresult
  cases hresult with
  | ok _ => rfl
  | error herr => exact Answer.of_error herr

theorem step (h : m.Alike m') {c c' : Command} (hc : c.Alpha c') :
    ShowSame (m.step c) (m'.step c') := by
  cases hc with
  | test hactual hexpected => exact h.test hactual hexpected
  | form he =>
    cases he with
    | define he => exact h.define _ he
    | defineStruct => exact h.defineStruct _ _
    | literal => exact h.expression .literal rfl rfl
    | quoted => exact h.expression .quoted rfl rfl
    | identifier hs => exact h.expression (.identifier hs) rfl rfl
    | lambda hn hb => exact h.expression (.lambda hn hb) rfl rfl
    | call hc hn ha => exact h.expression (.call hc hn ha) rfl rfl
    | branch hq ha hn ho => exact h.expression (.branch hq ha hn ho) rfl rfl

end Alike

/-- Interpreters show the same answers to commands that differ in names of parameters only. -/
theorem answers_alpha (h : m.Alike m') {cs cs' : List Command}
    (hcs : List.Forall₂ Command.Alpha cs cs') :
    (m.runCommands cs).1.Alike (m'.runCommands cs').1 ∧
      (m.runCommands cs).2.map Answer.of = (m'.runCommands cs').2.map Answer.of := by
  induction hcs generalizing m m' with
  | nil => exact ⟨h, rfl⟩
  | cons hc _ ih =>
    obtain ⟨hstep, hanswer⟩ := h.step hc
    obtain ⟨hlast, hanswers⟩ := ih hstep
    refine ⟨hlast, ?_⟩
    rw [runCommands, runCommands, List.map_cons, List.map_cons, hanswer, hanswers]

end Interpreter

end BeginningStudent
