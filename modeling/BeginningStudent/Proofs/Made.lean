import BeginningStudent.Proofs.Clean
import BeginningStudent.Proofs.Conserved
import BeginningStudent.Proofs.Sessions

/-!
# What values are made of

Every value of a session consists of numbers in their simplest form, proper lists and instances of
structure types that the session knows: the constructor of the type is what its name is bound to
(`Session.run_made`).
-/

namespace BeginningStudent

/-! ### Values -/

namespace Value

/-- Pairs begin lists, complex numbers are no reals, instances have the fields of their type, and
only structure types that satisfy `S` have constructors and instances. -/
inductive Made (S : StructType → Prop) : Value → Prop
  | simple {v} (hv : v.Simple) : Made S v
  | pair {first rest} (hfirst : Made S first) (hrest : Made S rest) (hl : rest.isList = true) :
    Made S (.pair first rest)
  | closure {code locals} (hl : ∀ b ∈ locals, Made S b.2) (hb : code.body.Clean) :
    Made S (.closure code (.bindings locals))
  | primitive {p} : Made S (.primitive p)
  | constructor {t} (ht : S t) : Made S (.constructor t)
  | predicate {t} : Made S (.predicate t)
  | accessor {t i} : Made S (.accessor t i)
  | structType {t} : Made S (.structType t)
  | record {t fields} (ht : S t) (hn : fields.length = t.fields.length)
    (hf : ∀ v ∈ fields, Made S v) : Made S (.record t fields)

variable {S S' : StructType → Prop}

theorem Made.mono {v : Value} (hv : v.Made S) (hS : ∀ t, S t → S' t) : v.Made S' := by
  induction hv with
  | simple hv => exact .simple hv
  | pair _ _ hl ihfirst ihrest => exact .pair ihfirst ihrest hl
  | closure _ hb ih => exact .closure ih hb
  | primitive => exact .primitive
  | constructor ht => exact .constructor (hS _ ht)
  | predicate => exact .predicate
  | accessor => exact .accessor
  | structType => exact .structType
  | record ht hn _ ih => exact .record (hS _ ht) hn ih

theorem Made.closure_inv {code : Lambda} {locals : Bindings}
    (h : Made S (.closure code (.bindings locals))) :
    (∀ b ∈ locals, b.2.Made S) ∧ code.body.Clean := by
  cases h with
  | simple hv => simp [Simple, isFlat] at hv
  | closure hl hb => exact ⟨hl, hb⟩

theorem Made.constructor_inv {t : StructType} (h : Made S (.constructor t)) : S t := by
  cases h with
  | simple hv => simp [Simple, isFlat] at hv
  | constructor ht => exact ht

theorem Made.record_inv {t : StructType} {fields : List Value} (h : Made S (.record t fields)) :
    S t ∧ fields.length = t.fields.length ∧ ∀ v ∈ fields, v.Made S := by
  cases h with
  | simple hv => simp [Simple, isFlat] at hv
  | record ht hn hf => exact ⟨ht, hn, hf⟩

theorem made_listClosed (S : StructType → Prop) : ListClosed (Made S) where
  simple _ hv := .simple hv
  pair _ _ hfirst hrest hl := .pair hfirst hrest hl
  parts first rest h := by
    cases h with
    | simple hv => simp [Simple, isFlat] at hv
    | pair hfirst hrest _ => exact ⟨hfirst, hrest⟩

end Value

open Value

/-- Evaluation keeps values made as they should be. -/
theorem made_conserved (S : StructType → Prop) : Conserved (Made S) Expr.Clean where
  toListClosed := made_listClosed S
  primitive _ := .primitive
  instances _ _ ht hn hfields := .record ht.constructor_inv hn hfields
  fields _ _ h := h.record_inv.2.2
  closure _ _ := ⟨fun h => ⟨h.closure_inv.2, h.closure_inv.1⟩, fun h => .closure h.2 h.1⟩
  literal _ h := by
    cases h with
    | literal hd => exact .simple hd
  quoted _ h := by
    cases h with
    | quoted hd => exact .simple hd
  lambda _ _ _ _ h := by
    cases h with
    | lambda hb => exact hb
  call _ _ h := by
    cases h with
    | call hc ha => exact ⟨hc, ha⟩
  branch _ _ _ _ h := by
    cases h with
    | branch hq ha ho => exact ⟨hq, ha, ho⟩

/-! ### Structure types that are known -/

/-- The constructor of the structure type is what its name is registered and defined as. -/
structure Known (top : Scope) (globals : Bindings) (type : StructType) : Prop where
  undelimited : Token.Undelimited type.name.toList
  registered : top.lookup type.constructorName = some (.function (.exactly type.fields.length))
  defined : globals.lookup type.constructorName = some (.constructor type)

theorem Known.mono {top top' : Scope} {globals globals' : Bindings} {type : StructType}
    (h : Known top globals type)
    (htop : ∀ s k, top.lookup s = some k → top'.lookup s = some k)
    (hglobals : ∀ s v, globals.lookup s = some v → globals'.lookup s = some v) :
    Known top' globals' type :=
  ⟨h.undelimited, htop _ _ h.registered, hglobals _ _ h.defined⟩

variable {t u : SymbolTable} {globals : Bindings}

namespace SymbolTable

theorem declare_fresh {names : Scope} (ht : t.AtTop) (hd : t.declare names = (u, .ok ())) :
    ∀ b ∈ names, t.lookup b.1 = none := by
  induction names generalizing t with
  | nil => simp
  | cons b names ih =>
    obtain ⟨s, k⟩ := b
    rw [declare] at hd
    split at hd
    · cases hd
    have hfresh : t.lookup s = none := checkFresh_ok ‹_›
    have hgrow : t.Grows (t.define s k) := .define .refl hfresh
    refine List.forall_mem_cons.mpr ⟨hfresh, fun b hb => ?_⟩
    -- A name that is fresh after the first definition was fresh before it.
    have hlater := ih (hgrow.atTop ht) hd b hb
    rw [(hgrow.atTop ht).lookup] at hlater
    rw [ht.lookup]
    cases hk : t.top.kind? b.1 with
    | none => rfl
    | some k' =>
      rw [hgrow.extends ht _ _ hk] at hlater
      cases hlater

theorem declare_rows {rows : List (String × Kind × Value)} (ht : t.AtTop)
    (hd : t.declare (rows.map fun r => (r.1, r.2.1)) = (u, .ok ())) :
    ∀ r ∈ rows, u.top.lookup r.1 = some r.2.1 ∧
      ((rows.map fun r => (r.1, r.2.2)).reverse ++ globals).lookup r.1 = some r.2.2 := by
  induction rows generalizing t globals with
  | nil => simp
  | cons r rows ih =>
    obtain ⟨s, k, v⟩ := r
    rw [List.map_cons, declare] at hd
    split at hd
    · cases hd
    have hfresh : t.lookup s = none := checkFresh_ok ‹_›
    have hgrow : t.Grows (t.define s k) := .define .refl hfresh
    have htop := hgrow.atTop ht
    have hshape : (((s, k, v) :: rows).map fun r => (r.1, r.2.2)).reverse ++ globals =
        (rows.map fun r => (r.1, r.2.2)).reverse ++ (s, v) :: globals := by
      simp
    rw [hshape]
    refine List.forall_mem_cons.mpr ⟨⟨?_, ?_⟩, ih htop hd⟩
    · have hrest := declare_grows (rows.map fun r => (r.1, r.2.1)) (t.define s k)
      rw [hd] at hrest
      exact hrest.lookup_top htop (by simp [ht.define])
    · -- The names of the other rows are fresh after this one, so they differ from it.
      have hother : s ∉ (rows.map fun r => (r.1, r.2.2)).reverse.map Prod.fst := by
        intro hs
        simp only [List.map_reverse, List.mem_reverse, List.map_map, List.mem_map,
          Function.comp_apply] at hs
        obtain ⟨r, hr, rfl⟩ := hs
        have hnone := declare_fresh htop hd (r.1, r.2.1) (List.mem_map_of_mem hr)
        simp [ht.define, lookup] at hnone
      rw [List.lookup_append, lookup_eq_none.mpr hother]
      simp

theorem declare_known {type : StructType} (ht : t.AtTop)
    (hname : Token.Undelimited type.name.toList)
    (hd : t.declare (Definition.structNames type.name type.fields) = (u, .ok ())) :
    Known u.top (type.bindings.reverse ++ globals) type := by
  rw [← type.rows_names] at hd
  have hrows : ∀ r ∈ type.rows, u.top.lookup r.1 = some r.2.1 ∧
      ((type.rows.map fun r => (r.1, r.2.2)).reverse ++ globals).lookup r.1 = some r.2.2 :=
    declare_rows ht hd
  have hmem : (type.constructorName, .function (.exactly type.fields.length), .constructor type) ∈
      type.rows := by
    simp [StructType.rows]
  obtain ⟨hregistered, hdefined⟩ := hrows _ hmem
  rw [type.rows_bindings] at hdefined
  exact ⟨hname, hregistered, hdefined⟩

end SymbolTable

/-! ### Runs -/

/-- The definitions of the top level and the values shown so far are made of structure types that
are known. -/
structure AllMade (top : Scope) (globals : Bindings) (shown : List Value) : Prop where
  definitions : ∀ b ∈ globals, b.2.Made (Known top globals)
  values : ∀ v ∈ shown, v.Made (Known top globals)

namespace AllMade

variable {top top' : Scope} {globals' : Bindings} {shown : List Value} {err : Option Error}

theorem later (h : AllMade top globals shown)
    (htop : ∀ s k, top.lookup s = some k → top'.lookup s = some k)
    (hkeeps : ∀ s v, globals.lookup s = some v → globals'.lookup s = some v)
    (hnew : ∀ b ∈ globals', b ∈ globals ∨ b.2.Made (Known top' globals')) :
    AllMade top' globals' shown := by
  have hknown : ∀ type, Known top globals type → Known top' globals' type :=
    fun _ htype => htype.mono htop hkeeps
  refine ⟨fun b hb => ?_, fun v hv => (h.values v hv).mono hknown⟩
  rcases hnew b hb with hold | hmade
  · exact (h.definitions b hold).mono hknown
  · exact hmade

theorem registers (h : AllMade t.top globals shown) (ht : t.AtTop) (hgrow : t.Grows u) :
    AllMade u.top globals shown :=
  h.later (fun _ _ => hgrow.lookup_top ht) (fun _ _ hv => hv) fun _ hb => .inl hb

theorem shows {v : Value} (h : AllMade top globals shown) (hv : v.Made (Known top globals)) :
    AllMade top globals (shown ++ [v]) := by
  refine ⟨h.definitions, fun w hw => ?_⟩
  rcases List.mem_append.mp hw with hw | hw
  · exact h.values w hw
  · rwa [List.mem_singleton.mp hw]

end AllMade

theorem StructType.bindings_made {type : StructType} (htype : S type) :
    ∀ b ∈ type.bindings, b.2.Made S := by
  intro b hb
  simp only [bindings, List.mem_cons, List.mem_mapIdx] at hb
  rcases hb with rfl | rfl | rfl | ⟨i, hi, rfl⟩
  · exact .structType
  · exact .constructor htype
  · exact .predicate
  · exact .accessor

namespace Interpreter

variable {m : Interpreter} {e : Expr} {es : List Expr} {shown : List Value} {top : Scope}

theorem eval_made (h : AllMade top m.globals shown) (he : e.Clean) :
    Yields (Made (Known top m.globals)) (fun _ => True) (m.eval e) :=
  have hP := made_conserved (Known top m.globals)
  hP.eval (hP.call_keeps h.definitions m.maxDepth) ⟨h.definitions, List.forall_mem_nil _⟩ e he

theorem define_made {s : String} (htop : ∀ s k, t.top.lookup s = some k → u.top.lookup s = some k)
    (hleads : Yields (fun r => Leads t.top m.globals u.top r.1.globals none) (fun _ => True)
      (m.execute (.define s e)))
    (he : e.Clean) (h : AllMade t.top m.globals shown) :
    Yields (fun r => AllMade u.top r.1.globals (shown ++ r.2.toList)) (fun _ => True)
      (m.execute (.define s e)) := by
  have hmade := eval_made h he
  cases hv : m.eval e with
  | error err =>
    have hexec : m.execute (.define s e) = .error err := by
      rw [execute, hv]
      rfl
    rw [hexec]
    trivial
  | ok v =>
    have hexec : m.execute (.define s e) = .ok (m.bind s v, none) := by
      rw [execute, hv]
      rfl
    rw [hexec] at hleads ⊢
    rw [hv] at hmade
    have hvalue : v.Made (Known t.top m.globals) := hmade
    have hall : AllMade u.top ((s, v) :: m.globals) shown := by
      refine h.later htop hleads.keeps fun b hb => ?_
      rcases List.mem_cons.mp hb with rfl | hb
      · exact .inr (hvalue.mono fun _ htype => htype.mono htop hleads.keeps)
      · exact .inl hb
    rw [← List.append_nil shown] at hall
    exact hall

theorem execute_made (hr : Registers t u e) (ht : t.AtTop) (hfits : Fits t.top m.globals)
    (he : e.Clean) (h : AllMade t.top m.globals shown) :
    Yields (fun r => AllMade u.top r.1.globals (shown ++ r.2.toList)) (fun _ => True)
      (m.execute e) := by
  have hleads := (execute_leads hr ht hfits).anyError
  have htop : ∀ s k, t.top.lookup s = some k → u.top.lookup s = some k :=
    fun _ _ => hr.grows.lookup_top ht
  cases hr with
  | value _ _ | function _ _ _ _ =>
    cases he with
    | define he => exact define_made htop hleads he h
  | @struct _ s fields hu =>
    cases he with
    | defineStruct hs =>
      let type : StructType := ⟨m.nextSerial, s, fields⟩
      have hknown : Known u.top (type.bindings.reverse ++ m.globals) type :=
        SymbolTable.declare_known ht hs hu
      have hall : AllMade u.top (type.bindings.reverse ++ m.globals) shown := by
        refine h.later htop hleads.keeps fun b hb => ?_
        rcases List.mem_append.mp hb with hb | hb
        · exact .inr (type.bindings_made hknown b (List.mem_reverse.mp hb))
        · exact .inl hb
      rw [← List.append_nil shown] at hall
      exact hall
  | expression hr =>
    rw [execute_expression hr]
    exact (eval_made h he).bind fun v hv => h.shows hv

theorem runForms_made (hr : RegistersAll t u es) (ht : t.AtTop) (hfits : Fits t.top m.globals)
    (hes : ∀ e ∈ es, e.Clean) (h : AllMade t.top m.globals shown) :
    AllMade u.top (m.runForms es).1.globals (shown ++ (m.runForms es).2.1) := by
  induction hr generalizing m shown with
  | nil => simpa [runForms] using h
  | cons hre hres ih =>
    obtain ⟨he, hrest⟩ := List.forall_mem_cons.mp hes
    have hleads := execute_leads hre ht hfits
    have hmade := execute_made hre ht hfits he h
    rw [runForms]
    split
    · -- The names of the forms behind the error have been registered all the same.
      simpa using h.registers ht (hre.grows.trans hres.grows)
    · next m' v hok =>
      rw [hok] at hleads hmade
      have hlater := ih (hre.grows.atTop ht) hleads.fits hrest hmade
      simpa using hlater

theorem runProgram_made {p : Program} (hr : RegistersAll t u p.forms) (ht : t.AtTop)
    (hfits : Fits t.top m.globals) (hp : ∀ e ∈ p.forms, e.Clean)
    (h : AllMade t.top m.globals shown) :
    AllMade u.top (m.runProgram p).1.globals (shown ++ (m.runProgram p).2.values) := by
  have hforms := runForms_made hr ht hfits hp h
  unfold runProgram
  split
  · next hrun =>
    rw [hrun] at hforms
    exact hforms
  · next hrun =>
    rw [hrun] at hforms
    exact hforms

end Interpreter

namespace Session

variable {s : Session} {shown : List Value}

theorem step_made (hs : s.Consistent) (h : AllMade s.names.top s.interpreter.globals shown)
    (source : String) :
    AllMade (s.step source).1.names.top (s.step source).1.interpreter.globals
      (shown ++ (s.step source).2.values) := by
  obtain ⟨ht, hfits⟩ := hs
  unfold step
  split
  · simpa [Result.ofError] using h
  · next forms hread =>
    have hgrow := s.names.resolveProgram_grows forms
    split
    · next names e hresolve =>
      rw [hresolve] at hgrow
      simpa [Result.ofError] using h.registers ht hgrow
    · next names program hresolve =>
      obtain ⟨hforms, -⟩ := SymbolTable.resolveProgram_ok ht hresolve
      have hclean := (SymbolTable.resolveProgram_clean (readSource_clean hread) hresolve).1
      exact Interpreter.runProgram_made hforms ht hfits hclean h

/-- Every value that a session has shown is made of structure types that the session knows. -/
theorem run_made (hs : s.Consistent) (h : AllMade s.names.top s.interpreter.globals shown)
    (sources : List String) :
    AllMade (s.run sources).1.names.top (s.run sources).1.interpreter.globals
      (shown ++ (s.run sources).2.flatMap Result.values) := by
  induction sources generalizing s shown with
  | nil => simpa [run] using h
  | cons source sources ih =>
    have hlater := ih (hs.step source) (step_made hs h source)
    simpa [run] using hlater

theorem start_made (maxDepth : Nat) :
    AllMade (start maxDepth).names.top (start maxDepth).interpreter.globals [] :=
  ⟨by simp [start, Interpreter.start], by simp⟩

end Session
end BeginningStudent
