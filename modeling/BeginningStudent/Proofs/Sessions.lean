import BeginningStudent.Proofs.FrontEnd
import BeginningStudent.Proofs.Runs
import BeginningStudent.Report

/-!
# Sessions

A source that fails can leave names registered that were never defined, and a later use of such a
name is the only fault of the interpreter that evaluation can come to
(`internal_error_leaves_unbound`). The numbers of arguments are settled before the run, up to the
primitives that take any number from some minimum on (`dynamic_argument_errors`).
-/

namespace BeginningStudent

/-! ### Errors of runs -/

/-- The error of the evaluation that an error is, if it is one. -/
def Error.eval? : Error → Option EvalError
  | .eval e => some e
  | _ => none

theorem Error.exists_eval {error : Option Error} {k : ErrorKind}
    (h : (error.bind eval?).map EvalError.kind = some k) :
    ∃ e, error = some (.eval e) ∧ e.kind = k := by
  obtain ⟨e, he, hk⟩ := Option.map_eq_some_iff.mp h
  obtain ⟨err, rfl, heval⟩ := Option.bind_eq_some_iff.mp he
  cases err with
  | eval _ =>
    cases heval
    exact ⟨e, rfl, hk⟩
  | _ => cases heval

/-! ### Runs of sessions -/

namespace Session

variable {s : Session} {x : String}

/-- The definitions fit the names that are registered. -/
structure Consistent (s : Session) : Prop where
  atTop : s.names.AtTop
  fits : Fits s.names.top s.interpreter.globals

def Missing (s : Session) (x : String) : Prop :=
  BeginningStudent.Missing s.names.top s.interpreter.globals x

theorem start_consistent (maxDepth : Nat) : (start maxDepth).Consistent :=
  ⟨SymbolTable.atTop_empty, fits_nil⟩

theorem step_leads (hs : s.Consistent) (source : String) :
    (s.step source).1.names.AtTop ∧
      Leads s.names.top s.interpreter.globals (s.step source).1.names.top
        (s.step source).1.interpreter.globals (s.step source).2.error := by
  obtain ⟨ht, hfits⟩ := hs
  have hfail : ∀ e : Error, (∀ e', e ≠ .eval e') → Leads s.names.top s.interpreter.globals
      s.names.top s.interpreter.globals (some e) :=
    fun e he => .fail hfits fun e' he' => absurd he' (he e')
  unfold step
  split
  · next e hread =>
    refine ⟨ht, hfail e ?_⟩
    rintro e' rfl
    rcases readSource_error hread with ⟨_, h⟩ | ⟨_, h⟩ <;> cases h
  · next forms _ =>
    have hgrow := s.names.resolveProgram_grows forms
    split
    · next names e hresolve =>
      rw [hresolve] at hgrow
      exact ⟨hgrow.atTop ht, (hfail (.resolve e) (by simp)).grows ht hgrow⟩
    · next names program hresolve =>
      rw [hresolve] at hgrow
      obtain ⟨hforms, htests⟩ := SymbolTable.resolveProgram_ok ht hresolve
      exact ⟨hgrow.atTop ht, Interpreter.runProgram_leads hforms htests ht hfits⟩

theorem Consistent.step (hs : s.Consistent) (source : String) : (s.step source).1.Consistent := by
  obtain ⟨ht, hleads⟩ := step_leads hs source
  exact ⟨ht, hleads.fits⟩

theorem Consistent.run (hs : s.Consistent) (sources : List String) :
    (s.run sources).1.Consistent := by
  induction sources generalizing s with
  | nil => exact hs
  | cons source sources ih => exact ih (hs.step source)

theorem step_allowed (hs : s.Consistent) {source : String} {e : EvalError}
    (he : (s.step source).2.error = some (.eval e)) : e.Allowed s.Missing :=
  (step_leads hs source).2.allowed e he

/-- The step registers the name and ends in an error before the definition of the name. -/
structure LeavesUnbound (s : Session) (source x : String) : Prop where
  fresh : s.names.lookup x = none
  registered : (s.step source).1.names.lookup x ≠ none
  failed : (s.step source).2.error ≠ none
  undefined : (s.step source).1.interpreter.globals.lookup x = none

theorem leavesUnbound_of_missing (hs : s.Consistent) {source : String} (h : ¬s.Missing x)
    (h' : (s.step source).1.Missing x) : s.LeavesUnbound source x := by
  obtain ⟨ht, hleads⟩ := step_leads hs source
  obtain ⟨hreg, hdef⟩ := h'
  have hglobals : s.interpreter.globals.lookup x = none := by
    cases hv : s.interpreter.globals.lookup x with
    | none => rfl
    | some v =>
      rw [hleads.keeps x v hv] at hdef
      cases hdef
  -- Definitions stay, so the name had none before; being no missing name, it was not registered.
  have htop : s.names.top.lookup x = none := by
    cases hk : s.names.top.lookup x with
    | none => rfl
    | some k => exact absurd ⟨by simp [hk], hglobals⟩ h
  obtain ⟨k, hk⟩ := Option.ne_none_iff_exists'.mp hreg
  constructor
  · rw [hs.atTop.lookup, Scope.kind?, htop, hleads.fits.noBuiltin x k hk]
    rfl
  · rw [ht.lookup, Scope.kind?, hk]
    simp
  · exact fun hnone => h (hleads.missing hnone x ⟨hreg, hdef⟩)
  · exact hdef

theorem run_missing (hs : s.Consistent) {sources : List String} (h : (s.run sources).1.Missing x) :
    s.Missing x ∨ ∃ before failed after, sources = before ++ failed :: after ∧
      (s.run before).1.LeavesUnbound failed x := by
  induction sources generalizing s with
  | nil => exact .inl h
  | cons source sources ih =>
    by_cases hx : s.Missing x
    · exact .inl hx
    refine .inr ?_
    rcases ih (hs.step source) h with hmiss | ⟨before, failed, after, rfl, hleaves⟩
    · exact ⟨[], source, sources, rfl, leavesUnbound_of_missing hs hx hmiss⟩
    · exact ⟨source :: before, failed, after, rfl, hleaves⟩

theorem start_missing (maxDepth : Nat) : ¬(start maxDepth).Missing x := fun h => h.1 rfl

end Session

/-! ### The errors of evaluation -/

open Session in
/-- The only fault of the interpreter that evaluation can come to is a name that an earlier step
has left unbound. So a source on its own never comes to one. -/
theorem internal_error_leaves_unbound (maxDepth : Nat) :
    (∀ earlier source e, (((start maxDepth).run earlier).1.step source).2.error = some (.eval e) →
      e.kind = .internal →
        ∃ x, e = .unbound x ∧
          e.message = "internal error: " ++ x ++ " is unbound after resolution" ∧
          ∃ before failed after, earlier = before ++ failed :: after ∧
            ((start maxDepth).run before).1.LeavesUnbound failed x) ∧
      ∀ source e, (run source maxDepth).error = some (.eval e) → e.kind ≠ .internal := by
  have hfault : ∀ earlier source e,
      (((start maxDepth).run earlier).1.step source).2.error = some (.eval e) →
      e.kind = .internal → ∃ x, e = .unbound x ∧ ∃ before failed after,
        earlier = before ++ failed :: after ∧
          ((start maxDepth).run before).1.LeavesUnbound failed x := by
    intro earlier source e he hi
    have hallowed := step_allowed ((start_consistent maxDepth).run earlier) he
    cases e with
    | unbound x =>
      rcases run_missing (start_consistent maxDepth) hallowed with hmiss | hleaves
      · exact absurd hmiss (start_missing maxDepth)
      · exact ⟨x, rfl, hleaves⟩
    | notProcedure | nestedDefinition | missingField => cases hallowed
    | primitive p fault => cases fault <;> cases hi
    | _ => cases hi
  constructor
  · intro earlier source e he hi
    obtain ⟨x, rfl, hleaves⟩ := hfault earlier source e he hi
    exact ⟨x, rfl, rfl, hleaves⟩
  · intro source e he hi
    obtain ⟨x, -, before, failed, after, hnil, -⟩ := hfault [] source e he hi
    simp at hnil

/-- The name of a function is registered before the body is resolved, and is left unbound by an
error in the body. -/
theorem unbound_after_failed_definition :
    ∃ e, (((Session.start 10).run ["(define (f x) y)"]).1.step "(f 1)").2.error = some (.eval e) ∧
      e.kind = .internal ∧ ∃ x, e = .unbound x := by
  have hstep : ((((Session.start 10).run ["(define (f x) y)"]).1.step "(f 1)").2.error.bind
      Error.eval?).map EvalError.kind = some .internal := by decide +kernel
  obtain ⟨e, herr, hk⟩ := Error.exists_eval hstep
  obtain ⟨x, h, -⟩ := (internal_error_leaves_unbound 10).1 _ _ _ herr hk
  exact ⟨e, herr, hk, x, h⟩

open Session in
/-- The numbers of arguments that are left to the run are those of primitives that take any number
from some minimum on, and the only misuse of a structure is an accessor that gets something else
than an instance of its type. -/
theorem dynamic_argument_errors (maxDepth : Nat) (earlier : List String) (source : String)
    {e : EvalError}
    (he : (((start maxDepth).run earlier).1.step source).2.error = some (.eval e)) :
    (∀ name a n, e ≠ .arity name a n) ∧ (∀ t n, e ≠ .constructorArity t n) ∧
      (∀ p a n, e = .primitive p (.arity a n) → ∃ m, p.arity = .atLeast m) ∧
      (e.kind = .struct →
        ∃ t i v, e = .notInstance t i v ∧ i < t.fields.length ∧
          ∀ fields, v ≠ .record t fields) := by
  have hallowed := step_allowed ((start_consistent maxDepth).run earlier) he
  refine ⟨?_, ?_, ?_, ?_⟩
  · rintro name a n rfl
    exact hallowed
  · rintro t n rfl
    exact hallowed
  · rintro p a n rfl
    exact hallowed rfl
  · intro hk
    cases e with
    | notInstance t i v => exact ⟨t, i, v, rfl, hallowed⟩
    | constructorArity => cases hallowed
    | primitive p fault => cases fault <;> cases hk
    | _ => cases hk

/-- An accessor that is applied to an instance of another type. -/
theorem accessor_of_other_struct :
    ∃ e, (((Session.start 10).run ["(define-struct p (x y))", "(define-struct q (x))"]).1.step
        "(p-x (make-q 1))").2.error = some (.eval e) ∧
      e.kind = .struct ∧ ∃ t i v, e = .notInstance t i v ∧ ∀ fields, v ≠ .record t fields := by
  have hstep : ((((Session.start 10).run
      ["(define-struct p (x y))", "(define-struct q (x))"]).1.step "(p-x (make-q 1))").2.error.bind
      Error.eval?).map EvalError.kind = some .struct := by decide +kernel
  obtain ⟨e, herr, hk⟩ := Error.exists_eval hstep
  obtain ⟨-, -, -, hstruct⟩ := dynamic_argument_errors 10 _ _ herr
  obtain ⟨t, i, v, h, -, hv⟩ := hstruct hk
  exact ⟨e, herr, hk, t, i, v, h, hv⟩

end BeginningStudent
