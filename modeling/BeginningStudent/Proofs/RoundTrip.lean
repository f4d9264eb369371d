import BeginningStudent.Proofs.Equality
import BeginningStudent.Proofs.Printed
import Mathlib.Data.List.Forall2

/-!
# Values that are read back

The text of a plain value that a session has shown is a source that gives this value again,
whatever the session has run before (`shown_values_read_back`).
-/

namespace BeginningStudent

variable {t : SymbolTable} {m : Interpreter} {top : Scope} {globals : Bindings}

/-! ### Names of the language -/

theorem Fits.lookup_builtin (h : Fits top globals) {s : String} {k : Kind}
    (hs : Kind.ofBuiltin? s = some k) : top.lookup s = none ∧ globals.lookup s = none := by
  have htop : top.lookup s = none := by
    cases hk : top.lookup s with
    | none => rfl
    | some k' =>
      rw [h.noBuiltin s k' hk] at hs
      cases hs
  refine ⟨htop, ?_⟩
  cases hv : globals.lookup s with
  | none => rfl
  | some v =>
    obtain ⟨k', hk', -⟩ := h.suits s v hv
    rw [htop] at hk'
    cases hk'

/-! ### Forms that make values -/

/-- The form is resolved at the top level, and its expression has the given value. -/
def Makes (t : SymbolTable) (m : Interpreter) (f : Form) (v : Value) : Prop :=
  ∃ e, f.resolve t none = .ok e ∧ m.eval e = .ok v

theorem makes_literal {f : Form} (d : Datum) (h : f.resolve t none = .ok (.literal d)) :
    Makes t m f (.ofDatum d) :=
  ⟨.literal d, h, by rw [Interpreter.eval, Expr.eval]⟩

theorem makes_quoted {f : Form} (d : Datum) (h : Form.quotation [f] = .ok (.quoted d)) :
    Makes t m f.quoted (.ofDatum d) := by
  refine ⟨.quoted d, ?_, by rw [Interpreter.eval, Expr.eval]⟩
  rw [Form.quoted, Form.resolve, Form.resolveSpecial]
  exact h

theorem makes_all {fs : List Form} {vs : List Value} (h : List.Forall₂ (Makes t m) fs vs) (i : Nat) :
    ∃ es, Form.resolveAll t none i fs = .ok es ∧
      Expr.evalAll (Value.call m.globals m.maxDepth) ⟨m.globals, []⟩ es = .ok vs := by
  induction h generalizing i with
  | nil => exact ⟨[], by rw [Form.resolveAll], by rw [Expr.evalAll]⟩
  | @cons f v fs vs hf _ ih =>
    obtain ⟨e, he, hv⟩ := hf
    obtain ⟨es, hes, hvs⟩ := ih (i + 1)
    refine ⟨e :: es, ?_, ?_⟩
    · have hsite : Form.partSite none i = none := rfl
      rw [Form.resolveAll, hsite, he, hes]
      rfl
    · rw [Interpreter.eval] at hv
      rw [Expr.evalAll, hv, hvs]
      rfl

theorem makes_call {name : String} {procedure v : Value} {fs : List Form} {vs : List Value}
    (hcheck : t.checkCall name fs.length = .ok ())
    (hlookup : (Environment.mk m.globals []).lookup name = some procedure)
    (hcall : Value.call m.globals m.maxDepth procedure vs = .ok v)
    (h : List.Forall₂ (Makes t m) fs vs) : Makes t m (.group (.name name :: fs)) v := by
  obtain ⟨es, hes, hvs⟩ := makes_all h 0
  refine ⟨.call (.identifier name) es, ?_, ?_⟩
  · rw [Form.resolve, hcheck, hes]
    rfl
  · rw [Interpreter.eval, Expr.eval, Expr.eval, hlookup, hvs]
    exact hcall

theorem makes_cons (ht : t.AtTop) (hfits : Fits t.top m.globals) {f g : Form} {first rest : Value}
    (hf : Makes t m f first) (hg : Makes t m g rest) (hl : rest.isList = true) :
    Makes t m (.group [.name Primitive.cons.name, f, g]) (.pair first rest) := by
  have hkind : Kind.ofBuiltin? Primitive.cons.name = some (.builtinFunction (.exactly 2)) := by
    decide +kernel
  obtain ⟨htop, hglobals⟩ := hfits.lookup_builtin hkind
  have hlookup : (Environment.mk m.globals []).lookup Primitive.cons.name =
      some (.primitive .cons) := by
    have hbuiltin : Value.builtin? Primitive.cons.name = some (.primitive .cons) := by
      simp [Value.builtin?, Primitive.ofName?_name]
    rw [Environment.lookup, hglobals, hbuiltin]
    rfl
  have hcall : Value.call m.globals m.maxDepth (.primitive .cons) [first, rest] =
      .ok (.pair first rest) := by
    have happly : Primitive.cons.apply [first, rest] = Operation.cons first rest := rfl
    have hcons : Operation.cons first rest = .ok (.pair first rest) := by
      simp [Operation.cons, hl]
    rw [Value.call.eq_def]
    exact mapError_ok.mpr (happly.trans hcons)
  refine makes_call ?_ hlookup hcall (.cons hf (.cons hg .nil))
  rw [SymbolTable.checkCall, ht.lookup, Scope.kind?, htop, hkind]
  rfl

theorem makes_record (ht : t.AtTop) {type : StructType} (hknown : Known t.top m.globals type)
    {fs : List Form} {vs : List Value} (hvs : vs.length = type.fields.length)
    (h : List.Forall₂ (Makes t m) fs vs) :
    Makes t m (.group (.name type.constructorName :: fs)) (.record type vs) := by
  have hfs : fs.length = type.fields.length := h.length_eq.trans hvs
  have hlookup : (Environment.mk m.globals []).lookup type.constructorName =
      some (.constructor type) := by
    rw [Environment.lookup, hknown.defined]
    rfl
  have hcall : Value.call m.globals m.maxDepth (.constructor type) vs = .ok (.record type vs) := by
    rw [Value.call.eq_def]
    simp [StructType.construct, hvs]
  refine makes_call ?_ hlookup hcall h
  rw [SymbolTable.checkCall, ht.lookup, Scope.kind?, hknown.registered]
  simp [hfs, Arity.accepts]

namespace Value

theorem forall_forms {R : Form → Value → Prop} {vs : List Value} (h : ∀ v ∈ vs, R v.form v) :
    List.Forall₂ R (forms vs) vs := by
  induction vs with
  | nil => exact .nil
  | cons v vs ih =>
    obtain ⟨hv, hvs⟩ := List.forall_mem_cons.mp h
    exact .cons hv (ih hvs)

theorem Plain.makes (ht : t.AtTop) (hfits : Fits t.top m.globals) {v : Value} (hv : v.Plain)
    (hmade : v.Made (Known t.top m.globals)) : Makes t m v.form v := by
  -- Only `cons` and constructors are called, which the limit on nested calls does not count.
  induction hv with
  | boolean b => exact makes_literal (.boolean b) (by rw [form, Form.resolve])
  | string s => exact makes_literal (.string s) (by rw [form, Form.resolve])
  | integer n => exact makes_literal (.number (.ofInt n)) (by rw [form, Form.resolve])
  | complex re im =>
    exact makes_literal (.number (.complex (.ofInt re) (.ofInt im))) (by rw [form, Form.resolve])
  | @symbol s hs => exact makes_quoted (.symbol s) rfl
  | empty => exact makes_quoted .empty rfl
  | @pair first rest _ _ hl ihfirst ihrest =>
    obtain ⟨hfirst, hrest⟩ := (made_listClosed _).parts first rest hmade
    exact makes_cons ht hfits (ihfirst hfirst) (ihrest hrest) hl
  | @record type fields _ ih =>
    obtain ⟨hknown, hlen, hfields⟩ := hmade.record_inv
    exact makes_record ht hknown hlen (forall_forms fun v hv => ih v hv (hfields v hv))

/-! ### Equality -/

theorem compare_ofInt (n : Int) : (RealNumber.ofInt n).numEq (.ofInt n) = true := by
  simp [RealNumber.numEq, RealNumber.ofInt, RealNumber.compare, RealNumber.compareRat]

theorem equalAll_self {vs : List Value} (h : ∀ v ∈ vs, v.equal v = true) :
    equalAll vs vs = true := by
  induction vs with
  | nil => rw [equalAll]; simp
  | cons v vs ih =>
    obtain ⟨hv, hvs⟩ := List.forall_mem_cons.mp h
    rw [equalAll, hv, ih hvs]
    rfl

theorem Plain.equal_self {v : Value} (hv : v.Plain) : v.equal v = true := by
  induction hv with
  | boolean b => simp [equal, sameAtom]
  | string s => simp [equal]
  | integer n => simp [equal, Number.numEq, Number.ofInt, Number.re, Number.im, compare_ofInt]
  | complex re im => simp [equal, Number.numEq, Number.re, Number.im, compare_ofInt]
  | symbol hs => simp [equal, sameAtom]
  | empty => simp [equal, sameAtom]
  | pair _ _ _ ihfirst ihrest => simp [equal, ihfirst, ihrest]
  | record _ ih => simp [equal, equalAll_self ih]

/-! ### Sources -/

theorem Plain.headKeyword {v : Value} (hv : v.Plain) : ∀ k ∈ v.form.headKeyword?, k = .quote := by
  cases hv <;> simp [form, Form.headKeyword?, Form.quoted]

end Value

theorem SymbolTable.resolveProgram_expression {f : Form} {e : Expr}
    (hf : ∀ k ∈ f.headKeyword?, k = .quote) (h : f.resolve t none = .ok e) :
    t.resolveProgram [f] = (t, .ok ⟨[e], []⟩) := by
  have hform : t.resolveForm f = (t, .ok e) := by
    unfold resolveForm
    split
    · simp [Form.headKeyword?] at hf
    · simp [Form.headKeyword?] at hf
    · rw [h]
  have hforms : t.resolveForms [f] = (t, .ok ⟨[e], []⟩) := by
    rw [resolveForms, hform]
    · simp [resolveForms, Except.map]
    · rintro parts rfl
      simp [Form.headKeyword?] at hf
  rw [resolveProgram, hforms]
  rfl

namespace Session

variable {s : Session}

theorem step_expression {source : String} {f : Form} {v : Value}
    (hs : s.Consistent) (hread : readSource source = .ok [f])
    (hf : ∀ k ∈ f.headKeyword?, k = .quote) (h : Makes s.names s.interpreter f v) :
    s.step source = (s, ⟨[v], 0, none⟩) := by
  obtain ⟨e, he, hv⟩ := h
  have hexec : s.interpreter.execute e = .ok (s.interpreter, some v) := by
    rw [Interpreter.execute_expression (Form.resolve_resolved hs.atTop he), hv]
    rfl
  rw [step, hread]
  simp only [SymbolTable.resolveProgram_expression hf he, Interpreter.runProgram,
    Interpreter.runForms, hexec, Interpreter.runTests]
  simp

end Session

open Session in
/-- The text of a plain value that a session has shown is a source that gives this value again. -/
theorem shown_values_read_back (maxDepth : Nat) (sources : List String) {r : Result} {v : Value}
    (hr : r ∈ ((start maxDepth).run sources).2) (hv : v ∈ r.values) (hplain : v.Plain) :
    ∃ w, (((start maxDepth).run sources).1.step v.text).2 = ⟨[w], 0, none⟩ ∧
      w.equal v = true ∧ w.text = v.text := by
  have hs := (start_consistent maxDepth).run sources
  have hall := run_made (start_consistent maxDepth) (start_made maxDepth) sources
  have hmade := hall.values v (List.mem_flatMap.mpr ⟨r, hr, hv⟩)
  have hread := hplain.readSource (fun _ htype => htype.undelimited) hmade
  have hmakes := hplain.makes hs.atTop hs.fits hmade
  refine ⟨v, ?_, hplain.equal_self, rfl⟩
  rw [step_expression hs hread hplain.headKeyword hmakes]

/-- A list that holds an instance of a structure, shown after a source that failed. -/
theorem shown_values_read_back_posn :
    ∃ sources, sources = ["(define-struct posn (x y))", "(define-struct p (posn",
        "(list (make-posn 1+2i (string-append \"a\" \"\\n\")) 'q)"] ∧
      ∃ r ∈ ((Session.start 10).run sources).2, ∃ v ∈ r.values, v.Plain ∧
      v.text = "(cons (make-posn 1+2i \"a\\n\") (cons 'q '()))" ∧
      ∃ w, (((Session.start 10).run sources).1.step v.text).2 = ⟨[w], 0, none⟩ ∧
        w.equal v = true ∧ w.text = v.text := by
  refine ⟨_, rfl, ?_⟩
  have hrun : ∃ r ∈ ((Session.start 10).run ["(define-struct posn (x y))",
        "(define-struct p (posn",
        "(list (make-posn 1+2i (string-append \"a\" \"\\n\")) 'q)"]).2,
      ∃ v ∈ r.values, v.Plain ∧
        v.text = "(cons (make-posn 1+2i \"a\\n\") (cons 'q '()))" := by
    decide +kernel
  obtain ⟨r, hr, v, hv, hplain, htext⟩ := hrun
  exact ⟨r, hr, v, hv, hplain, htext, shown_values_read_back 10 _ hr hv hplain⟩

open Session in
/-- A symbol whose name ends in a blank is shown with the blank, which is then no part of the name that
is read. -/
theorem shown_values_read_back_blank :
    ∃ sources, sources = ["(string->symbol \"a \")"] ∧
      ∃ r ∈ ((start 10).run sources).2, ∃ v ∈ r.values,
        v = .symbol "a " ∧ Token.ofSource "a " = .ok [.name "a"] ∧
        ¬∃ w, (((start 10).run sources).1.step v.text).2 = ⟨[w], 0, none⟩ ∧
          w.equal v = true ∧ w.text = v.text := by
  refine ⟨_, rfl, ?_⟩
  have hrun : ∃ r ∈ ((start 10).run ["(string->symbol \"a \")"]).2, ∃ v ∈ r.values,
      (Value.symbol "a ").equal v = true := by
    decide +kernel
  have hstep : (((start 10).run ["(string->symbol \"a \")"]).1.step
      (Value.symbol "a ").text).2.values.map Value.text = ["'a"] := by
    decide +kernel
  have htext : (Value.symbol "a ").text = "'a " := by decide +kernel
  obtain ⟨r, hr, v, hv, hequal⟩ := hrun
  obtain rfl := Value.eq_of_equal rfl (by simp) hequal
  refine ⟨r, hr, _, hv, rfl, by decide +kernel, ?_⟩
  rintro ⟨w, hw, -, hsame⟩
  rw [hw, List.map_singleton, hsame, htext] at hstep
  exact absurd hstep (by decide)

end BeginningStudent
