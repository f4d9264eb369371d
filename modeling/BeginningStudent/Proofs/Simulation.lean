import BeginningStudent.Proofs.Frames
import BeginningStudent.Proofs.Likeness

/-!
# Machines and the bindings that they stand for

The environments of a machine stand for bindings (`Holds`), and evaluation in an environment comes
to what `Expr.eval` comes to with these bindings (`Machine.eval_simulates`). So a machine and an
interpreter answer commands alike (`Machine.runCommands_simulates`).
-/

namespace BeginningStudent

open Value

/-- Bindings of the same names to values that are alike. -/
abbrev Bindings.Alike (C : ClosureRel) : Bindings → Bindings → Prop :=
  List.Forall₂ fun b b' => b.1 = b'.1 ∧ Value.Alike C b.2 b'.2

section Lookup

variable {C D : ClosureRel} {bs bs' : Bindings}

theorem Bindings.Alike.mono (h : bs.Alike C bs') (hCD : ∀ c c', C c c' → D c c') :
    bs.Alike D bs' :=
  h.imp fun _ _ ⟨hs, hv⟩ => ⟨hs, hv.mono hCD⟩

theorem Bindings.Alike.lookup (h : bs.Alike C bs') (s : String) :
    Option.Rel (Value.Alike C) (List.lookup s bs) (List.lookup s bs') := by
  induction h with
  | nil => exact .none
  | @cons b b' bs bs' hb _ ih =>
    obtain ⟨r, v⟩ := b
    obtain ⟨r', v'⟩ := b'
    obtain ⟨rfl, hv⟩ := hb
    rw [List.lookup_cons, List.lookup_cons]
    cases s == r with
    | true => exact .some hv
    | false => exact ih

theorem Bindings.Alike.zip {params : List String} {args args' : List Value}
    (h : AllAlike C args args') : Bindings.Alike C (params.zip args) (params.zip args') := by
  induction h generalizing params with
  | nil =>
    rw [List.zip_nil_right]
    exact .nil
  | cons hv _ ih =>
    cases params with
    | nil => exact .nil
    | cons s params => exact .cons ⟨rfl, hv⟩ ih

theorem orElse_rel {R : Value → Value → Prop} {x x' y y' : Option Value} (hx : Option.Rel R x x')
    (hy : Option.Rel R y y') : Option.Rel R (x <|> y) (x' <|> y') := by
  cases hx with
  | some h => exact .some h
  | none => exact hy

end Lookup

namespace Machine

/-! ### What environments stand for -/

/-- The environment stands for the bindings around a place below the top level. Its closures lie in
environments that are older. -/
def Holds (tree : EnvironmentTree) (i : Nat) (locals : Bindings) : Prop :=
  (i = 0 ∧ locals = [] ∧ ∃ own, tree.frames[0]? = some ⟨none, own⟩) ∨
  ∃ (p : Nat) (_ : p < i) (own inner outer : Bindings),
    tree.frames[i]? = some ⟨some p, own⟩ ∧ locals = inner ++ outer ∧ Holds tree p outer ∧
    own.Alike (fun c c' => c.1 = c'.1 ∧
      ∃ (j : Nat) (_ : j < i) (held : Bindings),
        c.2 = .environment j ∧ c'.2 = .bindings held ∧ Holds tree j held) inner
termination_by i

/-- The closures have the same code, and the first refers to an environment below `n` that stands
for what the second holds. -/
def PlacedBelow (tree : EnvironmentTree) (n : Nat) : ClosureRel := fun c c' =>
  c.1 = c'.1 ∧ ∃ (i : Nat) (_ : i < n) (held : Bindings),
    c.2 = .environment i ∧ c'.2 = .bindings held ∧ Holds tree i held

/-- The closures have the same code, and the environment of the first stands for what the second
holds. -/
abbrev Placed (tree : EnvironmentTree) : ClosureRel := PlacedBelow tree tree.frames.size

theorem placed_named (tree : EnvironmentTree) (n : Nat) : Named (PlacedBelow tree n) := by
  rintro ⟨code, _⟩ ⟨_, _⟩ ⟨rfl, -⟩
  exact ⟨rfl, rfl⟩

variable {tree tree' : EnvironmentTree} {i p : Nat} {own inner outer locals : Bindings}

theorem Holds.root (h : tree.frames[0]? = some ⟨none, own⟩) : Holds tree 0 [] := by
  rw [Holds]
  exact .inl ⟨rfl, rfl, own, h⟩

theorem Holds.frame (h : tree.frames[i]? = some ⟨some p, own⟩) (hp : p < i)
    (houter : Holds tree p outer) (hown : own.Alike (PlacedBelow tree i) inner) :
    Holds tree i (inner ++ outer) := by
  rw [Holds]
  exact .inr ⟨p, hp, own, inner, outer, h, rfl, houter, hown⟩

/-- An induction from the top level inwards. -/
theorem Holds.rec' {motive : Nat → Bindings → Prop}
    (root : ∀ own, tree.frames[0]? = some ⟨none, own⟩ → motive 0 [])
    (frame : ∀ i p own inner outer, tree.frames[i]? = some ⟨some p, own⟩ → p < i →
      Holds tree p outer → own.Alike (PlacedBelow tree i) inner →
      (∀ j < i, ∀ locals, Holds tree j locals → motive j locals) → motive i (inner ++ outer))
    (h : Holds tree i locals) : motive i locals := by
  induction i using Nat.strongRecOn generalizing locals with
  | ind i ih =>
    rw [Holds] at h
    rcases h with ⟨rfl, rfl, own, hown⟩ | ⟨p, hp, own, inner, outer, hi, rfl, houter, hown⟩
    · exact root own hown
    · exact frame i p own inner outer hi hp houter hown fun j hj locals h => ih j hj h

theorem Holds.lt_size (h : Holds tree i locals) : i < tree.frames.size := by
  refine h.rec' (motive := fun i _ => i < tree.frames.size) ?_ ?_
  · intro own hown
    exact (Array.getElem?_eq_some_iff.mp hown).1
  · intro i p own inner outer hi _ _ _ _
    exact (Array.getElem?_eq_some_iff.mp hi).1

/-- The tree still has the environments of the other. Only those of the top level may have changed
their bindings. -/
def Extends (tree' tree : EnvironmentTree) : Prop :=
  ∀ (i : Nat) (parent : Option Nat) (own : Bindings), tree.frames[i]? = some ⟨parent, own⟩ →
    ∃ own', tree'.frames[i]? = some ⟨parent, own'⟩ ∧ (parent ≠ none → own' = own)

theorem Holds.mono (h : Holds tree i locals) (hext : Extends tree' tree) :
    Holds tree' i locals := by
  refine h.rec' (motive := fun i locals => Holds tree' i locals) ?_ ?_
  · intro own hown
    obtain ⟨own', hown', -⟩ := hext _ _ _ hown
    exact .root hown'
  · intro i p own inner outer hi hp houter hown ih
    obtain ⟨own', hi', hsame⟩ := hext _ _ _ hi
    obtain rfl := hsame (Option.some_ne_none p)
    refine .frame hi' hp (ih p hp outer houter) (hown.mono ?_)
    rintro c c' ⟨hcode, j, hj, held, henvironment, hheld, hholds⟩
    exact ⟨hcode, j, hj, held, henvironment, hheld, ih j hj _ hholds⟩

theorem PlacedBelow.mono {n : Nat} {c c' : Lambda × Capture Value} (h : PlacedBelow tree n c c')
    (hext : Extends tree' tree) : PlacedBelow tree' n c c' := by
  obtain ⟨hcode, i, hi, held, henvironment, hheld, hholds⟩ := h
  exact ⟨hcode, i, hi, held, henvironment, hheld, hholds.mono hext⟩

theorem PlacedBelow.le {n k : Nat} {c c' : Lambda × Capture Value} (h : PlacedBelow tree n c c')
    (hn : n ≤ k) : PlacedBelow tree k c c' := by
  obtain ⟨hcode, i, hi, hholds⟩ := h
  exact ⟨hcode, i, Nat.lt_of_lt_of_le hi hn, hholds⟩

theorem Extends.size_le (hext : Extends tree' tree) : tree.frames.size ≤ tree'.frames.size := by
  by_contra hlt
  have hi : tree'.frames.size < tree.frames.size := by omega
  obtain ⟨own', hown', -⟩ := hext _ _ _ (Array.getElem?_eq_getElem hi)
  rw [Array.getElem?_eq_none (Nat.le_refl _)] at hown'
  cases hown'

theorem Extends.placed (hext : Extends tree' tree) {c c' : Lambda × Capture Value}
    (h : Placed tree c c') : Placed tree' c c' :=
  (PlacedBelow.mono h hext).le hext.size_le

theorem Keeps.extends {m m' : Machine} (h : Keeps m m') : Extends m'.tree m.tree := by
  intro i parent own hi
  refine ⟨own, ?_, fun _ => rfl⟩
  rw [h.frames i (Array.getElem?_eq_some_iff.mp hi).1, hi]

/-- A name has values that are alike in an environment and in the bindings that it stands for. -/
theorem lookup_alike {globals : Bindings} {s : String}
    (hroot : tree.frames[0]? = some ⟨none, own⟩) (hown : own.Alike (Placed tree) globals)
    (h : Holds tree i locals) :
    Option.Rel (Value.Alike (Placed tree)) (tree.lookup i s)
      ((Environment.mk globals locals).lookup s) := by
  refine h.rec' (motive := fun i locals => Option.Rel (Value.Alike (Placed tree)) (tree.lookup i s)
    ((Environment.mk globals locals).lookup s)) ?_ ?_
  · intro own' hown'
    obtain rfl : own' = own := by simpa using hown'.symm.trans hroot
    have hbuiltin : Option.Rel (Value.Alike (Placed tree)) (builtin? s) (builtin? s) := by
      cases hb : builtin? s with
      | none => exact .none
      | some v => exact .some (alike_builtin hb)
    have htop : (Environment.mk globals []).lookup s = (globals.lookup s <|> builtin? s) := rfl
    rw [EnvironmentTree.lookup, hroot, htop]
    exact orElse_rel (hown.lookup s) hbuiltin
  · intro i p own inner outer hi hp houter hown ih
    have hlt : i < tree.frames.size := (Array.getElem?_eq_some_iff.mp hi).1
    have hinner : Option.Rel (Value.Alike (Placed tree)) (own.lookup s) (inner.lookup s) :=
      Bindings.Alike.lookup (hown.mono fun _ _ hc => hc.le (Nat.le_of_lt hlt)) s
    have hsplit : (Environment.mk globals (inner ++ outer)).lookup s =
        (inner.lookup s <|> (Environment.mk globals outer).lookup s) := by
      simp [Environment.lookup, List.lookup_append, Option.or_assoc]
    rw [EnvironmentTree.lookup, hi, hsplit]
    dsimp only
    rw [if_pos hp]
    exact orElse_rel hinner (ih p hp outer houter)

/-! ### Computations that come to the same -/

/-- The computation comes to what the result says, in the environments that it leaves. -/
inductive Shows {α β : Type} (P : EnvironmentTree → α → β → Prop) :
    EStateM.Result EvalError Machine α → Except EvalError β → Prop
  | ok {a b m} (h : P m.tree a b) : Shows P (.ok a m) (.ok b)
  | error {e e' m} (h : EvalError.Alike (Placed m.tree) e e') : Shows P (.error e m) (.error e')

/-- Values that are alike in the environments of a tree. -/
abbrev SameValue (tree : EnvironmentTree) : Value → Value → Prop := Value.Alike (Placed tree)

abbrev SameValues (tree : EnvironmentTree) : List Value → List Value → Prop :=
  AllAlike (Placed tree)

/-- The environment of the top level stands for the definitions, and the machine can go into as many
calls as are left. -/
structure Mirrors (m : Machine) (globals : Bindings) (levels : Nat) : Prop where
  root : ∃ own, m.tree.frames[0]? = some ⟨none, own⟩ ∧ own.Alike (Placed m.tree) globals
  levels : m.maxDepth - m.depth = levels

variable {globals : Bindings} {levels : Nat} {m m' : Machine}

theorem Mirrors.keeps (h : Mirrors m globals levels) (hk : Keeps m m') :
    Mirrors m' globals levels := by
  obtain ⟨own, hroot, hown⟩ := h.root
  have hsize : 0 < m.tree.frames.size := (Array.getElem?_eq_some_iff.mp hroot).1
  constructor
  · exact ⟨own, (hk.frames 0 hsize).trans hroot, hown.mono fun _ _ hc => hk.extends.placed hc⟩
  · rw [hk.maxDepth, hk.depth, h.levels]

theorem Shows.bind {α α' β β' : Type} {P : EnvironmentTree → α → α' → Prop}
    {Q : EnvironmentTree → β → β' → Prop} {x : Run α} {f : α → Run β} {y : Except EvalError α'}
    {g : α' → Except EvalError β'} (hx : Shows P (x m) y) (hp : Preserves x)
    (hf : ∀ a a' m', Keeps m m' → P m'.tree a a' → Shows Q (f a m') (g a')) :
    Shows Q ((x >>= f) m) (y >>= g) := by
  have hk := hp m
  generalize hr : x m = r at hx hk
  cases hx with
  | ok h =>
    rw [bind_ok_run hr]
    exact hf _ _ _ hk h
  | error h =>
    rw [bind_error_run hr]
    exact .error h

/-- A way to call values in a machine that comes to the same as one without a machine. -/
def CallsAlike (globals : Bindings) (levels : Nat) (call : Value → List Value → Run Value)
    (call' : Expr.Caller) : Prop :=
  ∀ m v v' args args', Mirrors m globals levels → SameValue m.tree v v' →
    SameValues m.tree args args' → Shows SameValue (call v args m) (call' v' args')

section

variable {call : Value → List Value → Run Value} {call' : Expr.Caller}

mutual

theorem eval_simulates {m : Machine} (hpre : ∀ v args, Preserves (call v args))
    (hcall : CallsAlike globals levels call call') (hm : Mirrors m globals levels)
    (hi : Holds m.tree i locals) (e : Expr) :
    Shows SameValue (eval call i e m) (e.eval call' ⟨globals, locals⟩) := by
  match e with
  | .literal d | .quoted d =>
    rw [eval, Expr.eval]
    exact .ok (alike_ofDatum d)
  | .identifier s =>
    obtain ⟨own, hroot, hown⟩ := hm.root
    have hs := lookup_alike (s := s) hroot hown hi
    rw [eval, Expr.eval, lookup]
    generalize m.tree.lookup i s = x, (Environment.mk globals locals).lookup s = y at hs
    cases hs with
    | some h => exact .ok h
    | none => exact .error .refl
  | .lambda site name params body =>
    rw [eval, Expr.eval]
    exact .ok (.closure ⟨rfl, i, hi.lt_size, locals, rfl, rfl, hi⟩)
  | .define _ _ | .defineStruct _ _ =>
    rw [eval, Expr.eval]
    exact .error .refl
  | .call callee arguments =>
    rw [eval, Expr.eval]
    refine (eval_simulates hpre hcall hm hi callee).bind (eval_preserves hpre _) ?_
    intro procedure procedure' m' hk hprocedure
    have hi' : Holds m'.tree i locals := hi.mono hk.extends
    refine (evalAll_simulates hpre hcall (hm.keeps hk) hi' arguments).bind
      (evalAll_preserves hpre _) ?_
    intro args args' m'' hk' hargs
    refine hcall m'' _ _ _ _ ((hm.keeps hk).keeps hk') (hprocedure.mono ?_) hargs
    exact fun _ _ hc => hk'.extends.placed hc
  | .branch form question answer otherwise =>
    rw [eval, Expr.eval]
    refine (eval_simulates hpre hcall hm hi question).bind (eval_preserves hpre _) ?_
    intro v v' m' hk hv
    have hm' : Mirrors m' globals levels := hm.keeps hk
    have hi' : Holds m'.tree i locals := hi.mono hk.extends
    cases hv with
    | @atom v hv =>
      cases v with
      | boolean b =>
        cases b with
        | true => exact eval_simulates hpre hcall hm' hi' answer
        | false => exact evalElse_simulates hpre hcall hm' hi' otherwise
      | _ => exact .error (.notBoolean (.atom hv))
    | pair hfirst hrest => exact .error (.notBoolean (.pair hfirst hrest))
    | closure hc => exact .error (.notBoolean (.closure hc))
    | record hn hf => exact .error (.notBoolean (.record hn hf))

theorem evalAll_simulates {m : Machine} (hpre : ∀ v args, Preserves (call v args))
    (hcall : CallsAlike globals levels call call') (hm : Mirrors m globals levels)
    (hi : Holds m.tree i locals) (es : List Expr) :
    Shows SameValues (evalAll call i es m) (Expr.evalAll call' ⟨globals, locals⟩ es) := by
  match es with
  | [] =>
    rw [evalAll, Expr.evalAll]
    exact .ok .nil
  | e :: rest =>
    rw [evalAll, Expr.evalAll]
    refine (eval_simulates hpre hcall hm hi e).bind (eval_preserves hpre _) ?_
    intro v v' m' hk hv
    have hi' : Holds m'.tree i locals := hi.mono hk.extends
    refine (evalAll_simulates hpre hcall (hm.keeps hk) hi' rest).bind
      (evalAll_preserves hpre _) ?_
    intro vs vs' m'' hk' hvs
    exact .ok (.cons (hv.mono fun _ _ hc => hk'.extends.placed hc) hvs)

theorem evalElse_simulates {m : Machine} (hpre : ∀ v args, Preserves (call v args))
    (hcall : CallsAlike globals levels call call') (hm : Mirrors m globals levels)
    (hi : Holds m.tree i locals) (otherwise : Option Expr) :
    Shows SameValue (evalElse call i otherwise m)
      (Expr.evalElse call' ⟨globals, locals⟩ otherwise) := by
  match otherwise with
  | none =>
    rw [evalElse, Expr.evalElse]
    exact .error .refl
  | some e =>
    rw [evalElse, Expr.evalElse]
    exact eval_simulates hpre hcall hm hi e

end

end

/-! ### Calls -/

theorem give_simulates {x y : Except EvalError Value} (h : ResultsAlike (Placed m.tree) x y) :
    Shows SameValue (give x m) y := by
  cases h with
  | ok h => exact .ok h
  | error h => exact .error h

theorem give_call_simulates {v v' : Value} {args args' : List Value} {depth : Nat}
    (hv : SameValue m.tree v v') (hargs : SameValues m.tree args args')
    (hne : ∀ code held, v' ≠ .closure code held) :
    Shows SameValue (give (v.call [] 0 args) m) (v'.call globals depth args') :=
  give_simulates (call_alike (placed_named m.tree m.tree.frames.size) hv hargs hne)

theorem thenLeave_simulates {x : Run Value} {y : Except EvalError Value}
    (h : Shows SameValue (x m) y) : Shows SameValue (thenLeave x m) y := by
  rw [thenLeave]
  generalize x m = r at h
  cases h with
  | ok h => exact .ok h
  | error h => exact .error h

theorem bound_holds (params : List String) {args args' : List Value} (hi : Holds m.tree i locals)
    (hargs : SameValues m.tree args args') :
    Holds (m.bound i (params.zip args)).tree m.tree.frames.size
      (Bindings.bind locals params args') := by
  have hext : Extends (m.bound i (params.zip args)).tree m.tree :=
    (Keeps.bound m i (params.zip args)).extends
  refine .frame Array.getElem?_push_size hi.lt_size (hi.mono hext) ?_
  exact List.rel_reverse ((Bindings.Alike.zip hargs).mono fun _ _ hc => hc.mono hext)

theorem call_simulates (globals : Bindings) (levels : Nat) :
    CallsAlike globals levels (call levels) (Value.call globals levels) := by
  induction levels using Nat.strongRecOn with
  | ind levels ih =>
    intro m v v' args args' hm hv hargs
    by_cases hclosure : ∃ code held, v' = .closure code held
    · obtain ⟨code, held, rfl⟩ := hclosure
      obtain ⟨i, locals, rfl, rfl, hi⟩ : ∃ i locals, v = .closure code (.environment i) ∧
          held = .bindings locals ∧ Holds m.tree i locals := by
        cases hv with
        | closure h =>
          obtain ⟨rfl, i, -, locals, rfl, rfl, hi⟩ := h
          exact ⟨i, locals, rfl, rfl, hi⟩
        | atom hv => simp [isAtom] at hv
      rw [call.eq_def, Value.call.eq_def]
      dsimp only
      rw [hargs.length_eq]
      split
      · rw [child_insertAll_run]
        have hk := Keeps.bound m i (code.params.zip args)
        have hm' := hm.keeps hk
        have hbound := bound_holds code.params hi hargs
        generalize m.bound i (code.params.zip args) = m' at hk hm' hbound
        cases levels with
        | zero =>
          have hstop : m'.maxDepth ≤ m'.depth := Nat.le_of_sub_eq_zero hm'.levels
          rw [bind_error_run (enter_full hstop)]
          exact .error .refl
        | succ levels =>
          have hgo : ¬ m'.maxDepth ≤ m'.depth := by
            have := hm'.levels
            omega
          rw [bind_ok_run (enter_free hgo)]
          simp only [atLevel_eq]
          have hinside : Mirrors { m' with depth := m'.depth + 1 } globals levels := by
            refine ⟨hm'.root, ?_⟩
            have := hm'.levels
            dsimp only
            omega
          exact thenLeave_simulates (eval_simulates (call_preserves levels)
            (ih levels (Nat.lt_succ_self levels)) hinside hbound code.body)
      · exact .error .refl
    · have hne : ∀ code held, v' ≠ .closure code held :=
        fun code held h => hclosure ⟨code, held, h⟩
      have hcall : call levels v args = give (v.call [] 0 args) := by
        rw [call]
        rintro code i rfl
        cases hv with
        | closure => exact hne _ _ rfl
        | atom hv => simp [isAtom] at hv
      rw [hcall]
      exact give_call_simulates hv hargs hne

end Machine

/-! ### Commands -/

/-- The closures have the same code. -/
def SameCode : ClosureRel := fun c c' => c.1 = c'.1

/-- The outcomes are the same up to what closures hold. -/
inductive Outcome.Alike : Outcome → Outcome → Prop
  | value {v w} (h : Value.Alike SameCode v w) : Alike (.value v) (.value w)
  | defined : Alike .defined .defined
  | passed : Alike .passed .passed

abbrev SameAnswer : Except EvalError Outcome → Except EvalError Outcome → Prop :=
  Agrees Outcome.Alike (EvalError.Alike SameCode)

theorem StructType.bindings_alike {C : ClosureRel} (t : StructType) :
    t.bindings.Alike C t.bindings := by
  refine List.forall₂_same.mpr fun b hb => ⟨rfl, .atom ?_⟩
  simp only [bindings, List.mem_cons, List.mem_mapIdx] at hb
  rcases hb with rfl | rfl | rfl | ⟨i, hi, rfl⟩ <;> rfl

namespace Machine

/-- The machine and the interpreter are between two commands and have the same definitions. -/
structure Twins (m : Machine) (k : Interpreter) : Prop where
  root : ∃ own, m.tree.frames[0]? = some ⟨none, own⟩ ∧ own.Alike (Placed m.tree) k.globals
  depth : m.depth = 0
  maxDepth : m.maxDepth = k.maxDepth
  nextSerial : m.nextSerial = k.nextSerial

theorem start_twins (maxDepth : Nat) : Twins (start maxDepth) (.start maxDepth) :=
  ⟨⟨[], rfl, .nil⟩, rfl, rfl, rfl⟩

theorem sameCode_of_placed {tree : EnvironmentTree} {c c' : Lambda × Capture Value}
    (h : Placed tree c c') : SameCode c c' :=
  h.1

theorem extends_bindIn {tree : EnvironmentTree} {own : Bindings} (bs : Bindings)
    (hroot : tree.frames[0]? = some ⟨none, own⟩) : Extends (bindIn tree 0 bs) tree := by
  intro i parent own' hi
  have hmodify : (bindIn tree 0 bs).frames[i]? =
      if 0 = i then (fun f : Frame => { f with bindings := bs.reverse ++ f.bindings }) <$>
        tree.frames[i]? else tree.frames[i]? := Array.getElem?_modify
  rw [hmodify, hi]
  split
  · next h =>
    subst h
    rw [hroot] at hi
    cases hi
    exact ⟨_, rfl, fun h => absurd rfl h⟩
  · exact ⟨own', rfl, fun _ => rfl⟩

namespace Twins

variable {m m' : Machine} {k : Interpreter}

theorem mirrors (h : Twins m k) : Mirrors m k.globals k.maxDepth :=
  ⟨h.root, by rw [h.maxDepth, h.depth, Nat.sub_zero]⟩

theorem holds (h : Twins m k) : Holds m.tree 0 [] := by
  obtain ⟨own, hroot, -⟩ := h.root
  exact .root hroot

theorem keeps (h : Twins m k) (hk : Keeps m m') : Twins m' k where
  root := (h.mirrors.keeps hk).root
  depth := hk.depth.trans h.depth
  maxDepth := hk.maxDepth.trans h.maxDepth
  nextSerial := hk.nextSerial.trans h.nextSerial

theorem bindIn {bs bs' : Bindings} (h : Twins m k) (hbs : bs.Alike (Placed m.tree) bs') :
    Twins { m with tree := bindIn m.tree 0 bs }
      { k with globals := bs'.reverse ++ k.globals } := by
  obtain ⟨own, hroot, hown⟩ := h.root
  have hext := extends_bindIn bs hroot
  have hroot' : (Machine.bindIn m.tree 0 bs).frames[0]? = some ⟨none, bs.reverse ++ own⟩ := by
    rw [Machine.bindIn, Array.getElem?_modify, if_pos rfl, hroot]
    rfl
  have hall : Bindings.Alike (Placed m.tree) (bs.reverse ++ own) (bs'.reverse ++ k.globals) :=
    List.rel_append (List.rel_reverse hbs) hown
  exact ⟨⟨_, hroot', hall.mono fun _ _ hc => hext.placed hc⟩, h.depth, h.maxDepth, h.nextSerial⟩

theorem eval (h : Twins m k) (e : Expr) : Shows SameValue (evaluate 0 e m) (k.eval e) := by
  rw [evaluate, h.maxDepth, h.depth, Nat.sub_zero]
  exact eval_simulates (call_preserves _) (call_simulates _ _) h.mirrors h.holds e

def After (m : Machine × Except EvalError Outcome) (k : Interpreter × Except EvalError Outcome) :
    Prop :=
  Twins m.1 k.1 ∧ SameAnswer m.2 k.2

theorem define (h : Twins m k) (s : String) (e : Expr) :
    After (m.step (.form (.define s e))) (k.step (.form (.define s e))) := by
  have hk := evaluate_preserves 0 e m
  have hv := h.eval e
  rw [Machine.step, Interpreter.step, perform, Interpreter.execute]
  generalize hx : evaluate 0 e m = x, k.eval e = y at hk hv
  cases hv with
  | @ok v w m' hv =>
    have hbs : Bindings.Alike (Placed m'.tree) [(s, v)] [(s, w)] := .cons ⟨rfl, hv⟩ .nil
    have htwins := (h.keeps hk).bindIn hbs
    rw [bind_ok_run (execute_define_ok hx)]
    exact ⟨htwins, .ok .defined⟩
  | error he =>
    rw [bind_error_run (execute_define_error hx)]
    exact ⟨h.keeps hk, .error (he.mono fun _ _ => sameCode_of_placed)⟩

theorem defineStruct (h : Twins m k) (s : String) (fields : List String) :
    After (m.step (.form (.defineStruct s fields))) (k.step (.form (.defineStruct s fields))) := by
  have htwins := h.bindIn (StructType.mk m.nextSerial s fields).bindings_alike
  rw [Machine.step, Interpreter.step, perform, Interpreter.execute,
    bind_ok_run (execute_defineStruct s fields m)]
  refine ⟨⟨?_, htwins.depth, htwins.maxDepth, congrArg (· + 1) htwins.nextSerial⟩, .ok .defined⟩
  rw [Interpreter.defineStruct, ← h.nextSerial]
  exact htwins.root

theorem expression (h : Twins m k) {e : Expr} (he : e.isDefinition = false) :
    After (m.step (.form e)) (k.step (.form e)) := by
  have hk := evaluate_preserves 0 e m
  have hv := h.eval e
  have hexecute : k.execute e = do return (k, some (← k.eval e)) := by
    cases e <;> first | rfl | simp [Expr.isDefinition] at he
  rw [Machine.step, Interpreter.step, perform, hexecute]
  generalize hx : evaluate 0 e m = x, k.eval e = y at hk hv
  cases hv with
  | ok hv =>
    rw [bind_ok_run (execute_expression_ok he hx)]
    exact ⟨h.keeps hk, .ok (.value (hv.mono fun _ _ => sameCode_of_placed))⟩
  | error herr =>
    rw [bind_error_run (execute_expression_error he hx)]
    exact ⟨h.keeps hk, .error (herr.mono fun _ _ => sameCode_of_placed)⟩

theorem runTest (h : Twins m k) (t : TestCase) :
    Shows (fun _ _ _ => True) (runTest t m) (k.runTest t) := by
  rw [Machine.runTest, Interpreter.runTest]
  refine (h.eval t.actual).bind (evaluate_preserves 0 t.actual) ?_
  intro actual actual' m' hk hactual
  refine ((h.keeps hk).eval t.expected).bind (evaluate_preserves 0 t.expected) ?_
  intro expected expected' m'' hk' hexpected
  have hactual' : SameValue m''.tree actual actual' :=
    hactual.mono fun _ _ hc => hk'.extends.placed hc
  rw [hactual'.equal_eq (placed_named _ _) hexpected]
  split
  · exact .ok trivial
  · exact .error (.testFailed hactual' hexpected)

theorem test (h : Twins m k) (t : TestCase) : After (m.step (.test t)) (k.step (.test t)) := by
  have hk := runTest_preserves t m
  have ht := h.runTest t
  rw [Machine.step, Interpreter.step, perform]
  generalize hx : Machine.runTest t m = x, k.runTest t = y at hk ht
  cases ht with
  | ok =>
    rw [bind_ok_run hx]
    exact ⟨h.keeps hk, .ok .passed⟩
  | error he =>
    rw [bind_error_run hx]
    exact ⟨h.keeps hk, .error (he.mono fun _ _ => sameCode_of_placed)⟩

theorem step (h : Twins m k) (c : Command) : After (m.step c) (k.step c) := by
  cases c with
  | test t => exact h.test t
  | form e =>
    cases e with
    | define s e => exact h.define s e
    | defineStruct s fields => exact h.defineStruct s fields
    | _ => exact h.expression rfl

end Twins

/-- A machine and an interpreter with the same definitions answer commands alike. -/
theorem runCommands_simulates {m : Machine} {k : Interpreter} (h : Twins m k)
    (cs : List Command) :
    Twins (m.runCommands cs).1 (k.runCommands cs).1 ∧
      List.Forall₂ SameAnswer (m.runCommands cs).2 (k.runCommands cs).2 := by
  induction cs generalizing m k with
  | nil => exact ⟨h, .nil⟩
  | cons c cs ih =>
    obtain ⟨hstep, hanswer⟩ := h.step c
    obtain ⟨hrest, hanswers⟩ := ih hstep
    exact ⟨hrest, .cons hanswer hanswers⟩

end Machine
end BeginningStudent
