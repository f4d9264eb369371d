import BeginningStudent.Eval
import BeginningStudent.Value.Equality
import Mathlib.Data.List.Forall2

/-!
# Values that differ in their closures

What closures are made of is seen by calls alone. All other operations treat closures as wholes, so
on arguments that are the same up to a relation between closures, they have results that are
(`Primitive.apply_alike`). Values and errors that are alike are shown as the same texts.
-/

namespace BeginningStudent

/-! ### Results that agree -/

section Agrees

variable {ε ε' α α' β β' : Type}

/-- Both results are values that `P` relates, or both are errors that `E` relates. -/
inductive Agrees (P : α → α' → Prop) (E : ε → ε' → Prop) : Except ε α → Except ε' α' → Prop
  | ok {a a'} (h : P a a') : Agrees P E (.ok a) (.ok a')
  | error {e e'} (h : E e e') : Agrees P E (.error e) (.error e')

variable {P : α → α' → Prop} {Q : β → β' → Prop} {E : ε → ε' → Prop}
  {x : Except ε α} {x' : Except ε' α'}

namespace Agrees

theorem of_eq {E : ε → ε → Prop} {x : Except ε α} (hE : ∀ e, E e e) :
    Agrees (· = ·) E x x := by
  cases x with
  | error e => exact .error (hE e)
  | ok a => exact .ok rfl

theorem bind {f : α → Except ε β} {f' : α' → Except ε' β'} (hx : Agrees P E x x')
    (hf : ∀ a a', P a a' → Agrees Q E (f a) (f' a')) : Agrees Q E (x >>= f) (x' >>= f') := by
  cases hx with
  | ok h => exact hf _ _ h
  | error h => exact .error h

theorem map {g : α → β} {g' : α' → β'} (hx : Agrees P E x x')
    (hg : ∀ a a', P a a' → Q (g a) (g' a')) : Agrees Q E (g <$> x) (g' <$> x') := by
  cases hx with
  | ok h => exact .ok (hg _ _ h)
  | error h => exact .error h

theorem mapError {δ δ' : Type} {D : δ → δ' → Prop} {g : ε → δ} {g' : ε' → δ'}
    (hx : Agrees P E x x') (hg : ∀ e e', E e e' → D (g e) (g' e')) :
    Agrees P D (x.mapError g) (x'.mapError g') := by
  cases hx with
  | ok h => exact .ok h
  | error h => exact .error (hg _ _ h)

theorem foldlM {γ γ' : Type} {R : γ → γ' → Prop} {step : α → γ → Except ε α}
    {step' : α' → γ' → Except ε' α'} {start : α} {start' : α'} {cs : List γ} {cs' : List γ'}
    (hcs : List.Forall₂ R cs cs') (hstart : P start start')
    (hstep : ∀ a a' c c', P a a' → R c c' → Agrees P E (step a c) (step' a' c')) :
    Agrees P E (cs.foldlM step start) (cs'.foldlM step' start') := by
  induction hcs generalizing start start' with
  | nil => exact .ok hstart
  | cons hc _ ih =>
    rw [List.foldlM_cons, List.foldlM_cons]
    exact (hstep _ _ _ _ hstart hc).bind fun _ _ ha => ih ha

end Agrees

end Agrees

/-! ### Values that are alike -/

/-- A relation between closures: their code and what they hold. -/
abbrev ClosureRel := Lambda × Capture Value → Lambda × Capture Value → Prop

namespace Value

/-- Has the value neither parts nor code? -/
def isAtom : Value → Bool
  | .pair _ _ | .record _ _ | .closure _ _ => false
  | _ => true

/-- The values are the same up to closures, which are related by `C`. -/
inductive Alike (C : ClosureRel) : Value → Value → Prop
  | atom {v} (hv : v.isAtom = true) : Alike C v v
  | pair {a a' b b'} (ha : Alike C a a') (hb : Alike C b b') : Alike C (.pair a b) (.pair a' b')
  | closure {code code' held held'} (h : C (code, held) (code', held')) :
    Alike C (.closure code held) (.closure code' held')
  | record {t fields fields'} (hn : fields.length = fields'.length)
    (hf : ∀ v v', (v, v') ∈ fields.zip fields' → Alike C v v') :
    Alike C (.record t fields) (.record t fields')

abbrev AllAlike (C : ClosureRel) : List Value → List Value → Prop := List.Forall₂ (Alike C)

variable {C D : ClosureRel} {v v' w w' : Value}

theorem alike_record {t t' : StructType} {fields fields' : List Value} :
    Alike C (.record t fields) (.record t' fields') ↔ t = t' ∧ AllAlike C fields fields' := by
  constructor
  · intro h
    cases h with
    | atom hv => simp [isAtom] at hv
    | record hn hf => exact ⟨rfl, List.forall₂_iff_zip.mpr ⟨hn, fun h => hf _ _ h⟩⟩
  · rintro ⟨rfl, h⟩
    obtain ⟨hn, hf⟩ := List.forall₂_iff_zip.mp h
    exact .record hn fun _ _ h => hf h

theorem Alike.mono (h : Alike C v w) (hCD : ∀ c c', C c c' → D c c') : Alike D v w := by
  induction h with
  | atom hv => exact .atom hv
  | pair _ _ ihfirst ihrest => exact .pair ihfirst ihrest
  | closure h => exact .closure (hCD _ _ h)
  | record hn _ ih => exact .record hn ih

theorem alike_ofDatum (d : Datum) : Alike C (ofDatum d) (ofDatum d) := by
  induction d with
  | pair _ _ ihfirst ihrest => exact .pair ihfirst ihrest
  | _ => exact .atom rfl

theorem alike_builtin {s : String} (h : builtin? s = some v) : Alike C v v := by
  unfold builtin? at h
  rcases Option.or_eq_some_iff.mp (Option.orElse_eq_or.symm.trans h) with h | ⟨-, h⟩
  · obtain ⟨p, -, rfl⟩ := Option.map_eq_some_iff.mp h
    exact .atom rfl
  · obtain ⟨d, -, rfl⟩ := Option.map_eq_some_iff.mp h
    exact alike_ofDatum d

theorem alike_ofList {vs ws : List Value} (h : AllAlike C vs ws) :
    Alike C (ofList vs) (ofList ws) := by
  induction h with
  | nil => exact .atom rfl
  | cons hv _ ih => exact .pair hv ih

theorem Alike.isList_eq (h : Alike C v w) : v.isList = w.isList := by
  induction h with
  | pair _ _ _ ih => rw [isList, isList, ih]
  | _ => rfl

theorem Alike.lengthOnto_eq (h : Alike C v w) (n : Nat) : v.lengthOnto n = w.lengthOnto n := by
  induction h generalizing n with
  | pair _ _ _ ih => rw [lengthOnto, lengthOnto, ih]
  | _ => rfl

/-! ### Texts and equality -/

/-- Related closures have the same name and come from the same place. -/
def Named (C : ClosureRel) : Prop :=
  ∀ c c', C c c' → c.1.site = c'.1.site ∧ c.1.displayName = c'.1.displayName

theorem fieldTexts_congr {vs ws : List Value} (hn : vs.length = ws.length)
    (h : ∀ v w, (v, w) ∈ vs.zip ws → v.text = w.text) : fieldTexts vs = fieldTexts ws := by
  induction vs generalizing ws with
  | nil =>
    obtain rfl := List.length_eq_zero_iff.mp hn.symm
    rfl
  | cons v vs ih =>
    obtain ⟨w, ws, rfl⟩ := List.exists_cons_of_length_eq_add_one hn.symm
    have hvw : v.text = w.text := h v w List.mem_cons_self
    have hrest : fieldTexts vs = fieldTexts ws :=
      ih (by simpa using hn) fun a b hab => h a b (List.mem_cons_of_mem _ hab)
    rw [fieldTexts_cons, fieldTexts_cons, hvw, hrest]

theorem Alike.text_eq (hC : Named C) (h : Alike C v w) : v.text = w.text := by
  induction h with
  | atom => rfl
  | pair _ _ ihfirst ihrest => rw [text_pair, text_pair, ihfirst, ihrest]
  | closure h => simp only [text, writeOnto, (hC _ _ h).2]
  | record hn _ ih => rw [text_record, text_record, fieldTexts_congr hn ih]

theorem equalAll_congr {vs vs' ws ws' : List Value} (hn : vs.length = vs'.length)
    (h : ∀ v v', (v, v') ∈ vs.zip vs' → ∀ w w', Alike C w w' → v.equal w = v'.equal w')
    (hws : AllAlike C ws ws') : equalAll vs ws = equalAll vs' ws' := by
  induction hws generalizing vs vs' with
  | nil =>
    cases vs <;> cases vs' <;> rfl
  | cons hw _ ih =>
    cases vs with
    | nil =>
      obtain rfl := List.length_eq_zero_iff.mp hn.symm
      rfl
    | cons v vs =>
      obtain ⟨v', vs', rfl⟩ := List.exists_cons_of_length_eq_add_one hn.symm
      have hv := h v v' List.mem_cons_self _ _ hw
      have hvs := ih (by simpa using hn) fun a a' ha => h a a' (List.mem_cons_of_mem _ ha)
      rw [equalAll, equalAll, hv, hvs]

theorem Alike.equal_eq (hC : Named C) (hv : Alike C v v') (hw : Alike C w w') :
    v.equal w = v'.equal w' := by
  induction hv generalizing w w' with
  | @atom v hv =>
    cases hw with
    | atom => rfl
    | _ => cases v <;> first | rfl | simp [isAtom] at hv
  | pair _ _ ihfirst ihrest =>
    cases hw with
    | pair hfirst hrest => rw [equal, equal, ihfirst hfirst, ihrest hrest]
    | @atom w hw => cases w <;> first | rfl | simp [isAtom] at hw
    | _ => rfl
  | @closure code code' _ _ h =>
    cases hw with
    | @closure other other' _ _ h' =>
      have hsite : code.site = code'.site := (hC _ _ h).1
      have hother : other.site = other'.site := (hC _ _ h').1
      simp only [equal, sameAtom, hsite, hother]
    | @atom w hw => cases w <;> first | rfl | simp [isAtom] at hw
    | _ => rfl
  | record hn _ ih =>
    cases hw with
    | record hm hg =>
      have hws := List.forall₂_iff_zip.mpr ⟨hm, fun h => hg _ _ h⟩
      rw [equal, equal, equalAll_congr hn ih hws]
    | @atom w hw => cases w <;> first | rfl | simp [isAtom] at hw
    | _ => rfl

end Value

/-! ### Errors that are alike -/

inductive Fault.Alike (C : ClosureRel) : Fault → Fault → Prop
  | refl {f} : Alike C f f
  | expected {what v w} (h : Value.Alike C v w) : Alike C (.expected what v) (.expected what w)
  | noExactRepresentation {v w} (h : Value.Alike C v w) :
    Alike C (.noExactRepresentation v) (.noExactRepresentation w)
  | notList {v v' w w'} (hv : Value.Alike C v v') (hw : Value.Alike C w w') :
    Alike C (.notList v w) (.notList v' w')

/-- The errors are the same up to closures in the values that they show. -/
inductive EvalError.Alike (C : ClosureRel) : EvalError → EvalError → Prop
  | refl {e} : Alike C e e
  | primitive {p f g} (h : Fault.Alike C f g) : Alike C (.primitive p f) (.primitive p g)
  | notInstance {t i v w} (h : Value.Alike C v w) :
    Alike C (.notInstance t i v) (.notInstance t i w)
  | notBoolean {form v w} (h : Value.Alike C v w) :
    Alike C (.notBoolean form v) (.notBoolean form w)
  | testFailed {v v' w w'} (hv : Value.Alike C v v') (hw : Value.Alike C w w') :
    Alike C (.testFailed v w) (.testFailed v' w')
  | notProcedure {v w} (h : Value.Alike C v w) : Alike C (.notProcedure v) (.notProcedure w)

variable {C D : ClosureRel}

theorem Fault.Alike.mono {f g : Fault} (h : f.Alike C g) (hCD : ∀ c c', C c c' → D c c') :
    f.Alike D g := by
  cases h with
  | refl => exact .refl
  | expected h => exact .expected (h.mono hCD)
  | noExactRepresentation h => exact .noExactRepresentation (h.mono hCD)
  | notList hv hw => exact .notList (hv.mono hCD) (hw.mono hCD)

theorem EvalError.Alike.mono {e e' : EvalError} (h : e.Alike C e')
    (hCD : ∀ c c', C c c' → D c c') : e.Alike D e' := by
  cases h with
  | refl => exact .refl
  | primitive h => exact .primitive (h.mono hCD)
  | notInstance h => exact .notInstance (h.mono hCD)
  | notBoolean h => exact .notBoolean (h.mono hCD)
  | testFailed hv hw => exact .testFailed (hv.mono hCD) (hw.mono hCD)
  | notProcedure h => exact .notProcedure (h.mono hCD)

theorem Fault.Alike.message_eq (hC : Value.Named C) {f g : Fault} (h : f.Alike C g)
    (name : String) : f.message name = g.message name := by
  cases h with
  | refl => rfl
  | expected h | noExactRepresentation h => rw [message, message, h.text_eq hC]
  | notList hv hw => rw [message, message, hv.text_eq hC, hw.text_eq hC]

theorem EvalError.Alike.message_eq (hC : Value.Named C) {e e' : EvalError} (h : e.Alike C e') :
    e.message = e'.message := by
  cases h with
  | refl => rfl
  | primitive h => exact h.message_eq hC _
  | notInstance h | notBoolean h | notProcedure h => exact congrArg (_ ++ ·) (h.text_eq hC)
  | @testFailed v v' w w' hv hw =>
    change "Actual value " ++ v.text ++ _ ++ w.text ++ _ = "Actual value " ++ v'.text ++ _ ++ _ ++ _
    rw [hv.text_eq hC, hw.text_eq hC]

/-! ### Checks of arguments -/

open Value

abbrev FaultsAlike {α : Type} (C : ClosureRel) : Except Fault α → Except Fault α → Prop :=
  Agrees (· = ·) (Fault.Alike C)

abbrev AnswersAlike (C : ClosureRel) : Except Fault Value → Except Fault Value → Prop :=
  Agrees (Value.Alike C) (Fault.Alike C)

namespace Argument

/-- The check does not look into closures. -/
def Blind {α : Type} (C : ClosureRel) (check : Value → Except Fault α) : Prop :=
  ∀ v w, Alike C v w → FaultsAlike C (check v) (check w)

theorem blind_of_rejects {α : Type} {check : Value → Except Fault α} {what : Expectation}
    (hpair : ∀ v w, check (.pair v w) = .error (.expected what (.pair v w)))
    (hclosure : ∀ c l, check (.closure c l) = .error (.expected what (.closure c l)))
    (hrecord : ∀ t vs, check (.record t vs) = .error (.expected what (.record t vs))) :
    Blind C check := by
  intro v w hvw
  cases hvw with
  | atom => exact .of_eq fun _ => .refl
  | pair hfirst hrest =>
    rw [hpair, hpair]
    exact .error (.expected (.pair hfirst hrest))
  | closure hc =>
    rw [hclosure, hclosure]
    exact .error (.expected (.closure hc))
  | record hn hf =>
    rw [hrecord, hrecord]
    exact .error (.expected (.record hn hf))

theorem number_blind : Blind C number :=
  blind_of_rejects (fun _ _ => rfl) (fun _ _ => rfl) fun _ _ => rfl

theorem real_blind : Blind C real :=
  blind_of_rejects (fun _ _ => rfl) (fun _ _ => rfl) fun _ _ => rfl

theorem rational_blind : Blind C rational :=
  blind_of_rejects (fun _ _ => rfl) (fun _ _ => rfl) fun _ _ => rfl

theorem integer_blind : Blind C integer :=
  blind_of_rejects (fun _ _ => rfl) (fun _ _ => rfl) fun _ _ => rfl

theorem natural_blind : Blind C natural :=
  blind_of_rejects (fun _ _ => rfl) (fun _ _ => rfl) fun _ _ => rfl

theorem boolean_blind : Blind C boolean :=
  blind_of_rejects (fun _ _ => rfl) (fun _ _ => rfl) fun _ _ => rfl

theorem string_blind : Blind C string :=
  blind_of_rejects (fun _ _ => rfl) (fun _ _ => rfl) fun _ _ => rfl

theorem symbol_blind : Blind C symbol :=
  blind_of_rejects (fun _ _ => rfl) (fun _ _ => rfl) fun _ _ => rfl

theorem nonEmptyList_alike {v w : Value} (h : Alike C v w) :
    Agrees (fun a b => Alike C a.1 b.1 ∧ Alike C a.2 b.2) (Fault.Alike C) (nonEmptyList v)
      (nonEmptyList w) := by
  cases h with
  | @atom v hv => cases v <;> first | exact .error .refl | simp [isAtom] at hv
  | pair hfirst hrest => exact .ok ⟨hfirst, hrest⟩
  | closure hc => exact .error (.expected (.closure hc))
  | record hn hf => exact .error (.expected (.record hn hf))

end Argument

/-! ### Operations -/

namespace Operation

open Argument

variable {v v' w w' : Value} {vs vs' : List Value}

theorem map_alike {α : Type} {check : Value → Except Fault α} {g : α → Value}
    (hc : Blind C check) (hg : ∀ a, (g a).isAtom = true) (h : Alike C v w) :
    AnswersAlike C (g <$> check v) (g <$> check w) := by
  refine (hc v w h).map ?_
  rintro a _ rfl
  exact .atom (hg a)

theorem orBlame_alike {α : Type} (h : Alike C v w) (r : Except ArithmeticFault α) :
    FaultsAlike C (orBlame v r) (orBlame w r) := by
  cases r with
  | ok a => exact .ok rfl
  | error e =>
    cases e with
    | divideByZero => exact .error .refl
    | noExactRepresentation => exact .error (.noExactRepresentation h)

theorem orBlame_number_alike (h : Alike C v w) (r : Except ArithmeticFault Number) :
    AnswersAlike C (.number <$> orBlame v r) (.number <$> orBlame w r) := by
  refine (orBlame_alike h r).map ?_
  rintro a _ rfl
  exact .atom rfl

theorem orBlame_real_alike (h : Alike C v w) (r : Except ArithmeticFault RealNumber) :
    AnswersAlike C (ofReal <$> orBlame v r) (ofReal <$> orBlame w r) := by
  refine (orBlame_alike h r).map ?_
  rintro a _ rfl
  exact .atom rfl

theorem fold_alike {α : Type} {step : α → Value → Except Fault α} (start : α)
    (hs : AllAlike C vs vs')
    (hstep : ∀ a v v', Alike C v v' → FaultsAlike C (step a v) (step a v')) :
    FaultsAlike C (vs.foldlM step start) (vs'.foldlM step start) := by
  refine Agrees.foldlM hs rfl ?_
  rintro a _ v v' rfl hv
  exact hstep a v v' hv

theorem chain_alike {α : Type} {check : Value → Except Fault α} {holds : α → α → Bool}
    (hc : Blind C check) (h : Alike C v v') (hs : AllAlike C vs vs') :
    AnswersAlike C (chain check holds v vs) (chain check holds v' vs') := by
  refine (hc v v' h).bind ?_
  rintro a _ rfl
  refine (fold_alike _ hs fun acc w w' hw => ?_).bind ?_
  · refine (hc w w' hw).bind ?_
    rintro b _ rfl
    exact .ok rfl
  · rintro acc _ rfl
    exact .ok (.atom rfl)

theorem accumulate_alike {combine : Number → Number → Number} (h : Alike C v v')
    (hs : AllAlike C vs vs') :
    AnswersAlike C (accumulate combine v vs) (accumulate combine v' vs') := by
  refine (number_blind v v' h).bind ?_
  rintro z _ rfl
  refine (fold_alike z hs fun total w w' hw => ?_).bind ?_
  · refine (number_blind w w' hw).map ?_
    rintro n _ rfl
    rfl
  · rintro total _ rfl
    exact .ok (.atom rfl)

theorem difference_alike (h : Alike C v v') (hs : AllAlike C vs vs') :
    AnswersAlike C (difference v vs) (difference v' vs') := by
  cases hs with
  | nil => exact map_alike number_blind (fun _ => rfl) h
  | cons hw hs => exact accumulate_alike h (.cons hw hs)

theorem ratio_alike (hv : Alike C v v') (hw : Alike C w w') (hs : AllAlike C vs vs') :
    AnswersAlike C (ratio v w vs) (ratio v' w' vs') := by
  refine (number_blind v v' hv).bind ?_
  rintro z _ rfl
  refine (fold_alike z (.cons hw hs) fun total a a' ha => ?_).bind ?_
  · refine (number_blind a a' ha).bind ?_
    rintro n _ rfl
    exact orBlame_alike ha _
  · rintro total _ rfl
    exact .ok (.atom rfl)

theorem power_alike (hv : Alike C v v') (hw : Alike C w w') :
    AnswersAlike C (power v w) (power v' w') := by
  refine (number_blind v v' hv).bind ?_
  rintro z _ rfl
  refine (number_blind w w' hw).bind ?_
  rintro n _ rfl
  exact orBlame_number_alike hv _

theorem extremum_alike {better : Ordering} (h : Alike C v v') (hs : AllAlike C vs vs') :
    AnswersAlike C (extremum better v vs) (extremum better v' vs') := by
  refine (real_blind v v' h).bind ?_
  rintro r _ rfl
  refine (fold_alike (r, r.isExact) hs fun acc w w' hw => ?_).bind ?_
  · refine (real_blind w w' hw).bind ?_
    rintro n _ rfl
    exact .ok rfl
  · rintro acc _ rfl
    exact .ok (.atom rfl)

theorem integerDivision_alike
    {divide : RealNumber → RealNumber → Except ArithmeticFault RealNumber} (hv : Alike C v v')
    (hw : Alike C w w') :
    AnswersAlike C (integerDivision divide v w) (integerDivision divide v' w') := by
  refine (integer_blind v v' hv).bind ?_
  rintro a _ rfl
  refine (integer_blind w w' hw).bind ?_
  rintro b _ rfl
  exact orBlame_real_alike hw _

theorem fractionPart_alike {part : RealNumber → Except ArithmeticFault RealNumber}
    (h : Alike C v w) : AnswersAlike C (fractionPart part v) (fractionPart part w) := by
  refine (rational_blind v w h).bind ?_
  rintro r _ rfl
  exact orBlame_real_alike h _

theorem toExact_alike (h : Alike C v w) : AnswersAlike C (toExact v) (toExact w) := by
  refine (number_blind v w h).bind ?_
  rintro z _ rfl
  exact orBlame_number_alike h _

theorem passes_alike {α : Type} {check : Value → Except Fault α} {P : α → α → Prop}
    (h : Agrees P (Fault.Alike C) (check v) (check w)) :
    AnswersAlike C (passes check v) (passes check w) := by
  have hsame : (check v).isOk = (check w).isOk := by
    generalize check v = x, check w = y at h
    cases h <;> rfl
  rw [passes, passes, hsame]
  exact .ok (.atom rfl)

theorem stringAppend_alike (hs : AllAlike C vs vs') :
    AnswersAlike C (stringAppend vs) (stringAppend vs') := by
  refine (fold_alike "" hs fun s w w' hw => ?_).map ?_
  · refine (string_blind w w' hw).map ?_
    rintro t _ rfl
    rfl
  · rintro s _ rfl
    exact .atom rfl

theorem slice_alike {cs : List Char} {i j : Nat} : FaultsAlike C (slice cs i j) (slice cs i j) :=
  .of_eq fun _ => .refl

theorem substring_alike (hv : Alike C v v') (hw : Alike C w w') (hs : AllAlike C vs vs') :
    AnswersAlike C (substring v w vs) (substring v' w' vs') := by
  match hs with
  | .nil =>
    refine (string_blind v v' hv).bind ?_
    rintro s _ rfl
    refine (natural_blind w w' hw).bind ?_
    rintro i _ rfl
    refine slice_alike.bind ?_
    rintro cs _ rfl
    exact .ok (.atom rfl)
  | .cons hstop .nil =>
    refine (string_blind v v' hv).bind ?_
    rintro s _ rfl
    refine (natural_blind w w' hw).bind ?_
    rintro i _ rfl
    refine (natural_blind _ _ hstop).bind ?_
    rintro j _ rfl
    refine slice_alike.bind ?_
    rintro cs _ rfl
    exact .ok (.atom rfl)
  | .cons _ (.cons _ hs) =>
    rw [substring, substring, List.length_cons, List.length_cons, List.length_cons,
      List.length_cons, hs.length_eq]
    · exact .error .refl
    all_goals simp

theorem cons_alike (hv : Alike C v v') (hw : Alike C w w') :
    AnswersAlike C (cons v w) (cons v' w') := by
  rw [cons, cons, hw.isList_eq]
  split
  · exact .ok (.pair hv hw)
  · exact .error (.notList hv hw)

theorem first_alike (h : Alike C v w) : AnswersAlike C (first v) (first w) :=
  (nonEmptyList_alike h).map fun _ _ h => h.1

theorem rest_alike (h : Alike C v w) : AnswersAlike C (rest v) (rest w) :=
  (nonEmptyList_alike h).map fun _ _ h => h.2

theorem isEmpty_alike (h : Alike C v w) : AnswersAlike C (isEmpty v) (isEmpty w) := by
  cases h <;> exact .ok (.atom rfl)

theorem isList_alike (h : Alike C v w) : AnswersAlike C (isList v) (isList w) := by
  rw [isList, isList, h.isList_eq]
  exact .ok (.atom rfl)

theorem length_alike (h : Alike C v w) : AnswersAlike C (length v) (length w) := by
  rw [length, length, h.isList_eq, h.lengthOnto_eq]
  split
  · exact .ok (.atom rfl)
  · exact .error (.expected h)

theorem equal_alike (hC : Named C) (hv : Alike C v v') (hw : Alike C w w') :
    AnswersAlike C (equal v w) (equal v' w') := by
  rw [equal, equal, hv.equal_eq hC hw]
  exact .ok (.atom rfl)

/-- On arguments that are alike, the operation has answers that are. -/
def Respects (C : ClosureRel) : Operation → Prop
  | .unary f => ∀ a a', Alike C a a' → AnswersAlike C (f a) (f a')
  | .binary f => ∀ a a' b b', Alike C a a' → Alike C b b' → AnswersAlike C (f a b) (f a' b')
  | .atLeastZero f => ∀ as as', AllAlike C as as' → AnswersAlike C (f as) (f as')
  | .atLeastOne f => ∀ a a' as as', Alike C a a' → AllAlike C as as' →
    AnswersAlike C (f a as) (f a' as')
  | .atLeastTwo f => ∀ a a' b b' as as', Alike C a a' → Alike C b b' → AllAlike C as as' →
    AnswersAlike C (f a b as) (f a' b' as')

theorem apply_alike {op : Operation} (hop : op.Respects C) (hs : AllAlike C vs vs') :
    AnswersAlike C (op.apply vs) (op.apply vs') := by
  have hn := hs.length_eq
  have hfault : AnswersAlike C (.error (.arity op.arity vs.length))
      (.error (.arity op.arity vs'.length)) := by
    rw [hn]
    exact .error .refl
  match op, hs with
  | .unary f, .cons ha .nil => exact hop _ _ ha
  | .unary f, .nil => exact hfault
  | .unary f, .cons _ (.cons _ _) => exact hfault
  | .binary f, .cons ha (.cons hb .nil) => exact hop _ _ _ _ ha hb
  | .binary f, .nil => exact hfault
  | .binary f, .cons _ .nil => exact hfault
  | .binary f, .cons _ (.cons _ (.cons _ _)) => exact hfault
  | .atLeastZero f, hs => exact hop _ _ hs
  | .atLeastOne f, .nil => exact hfault
  | .atLeastOne f, .cons ha hs => exact hop _ _ _ _ ha hs
  | .atLeastTwo f, .nil => exact hfault
  | .atLeastTwo f, .cons _ .nil => exact hfault
  | .atLeastTwo f, .cons ha (.cons hb hs) => exact hop _ _ _ _ _ _ ha hb hs

end Operation

open Operation Argument in
theorem Primitive.operation_respects (hC : Named C) (p : Primitive) : p.operation.Respects C := by
  match p with
  | .cons => exact fun _ _ _ _ => cons_alike
  | .first => exact fun _ _ => first_alike
  | .rest => exact fun _ _ => rest_alike
  | .list => exact fun _ _ hs => .ok (alike_ofList hs)
  | .substring => exact fun _ _ _ _ _ _ => substring_alike
  | .stringAppend => exact fun _ _ => stringAppend_alike
  | .add | .mul => exact fun _ _ _ _ _ _ ha hb hs => accumulate_alike ha (.cons hb hs)
  | .sub => exact fun _ _ _ _ => difference_alike
  | .div => exact fun _ _ _ _ _ _ => ratio_alike
  | .numEq => exact fun _ _ _ _ _ _ ha hb hs => chain_alike number_blind ha (.cons hb hs)
  | .less | .greater | .lessEq | .greaterEq =>
    exact fun _ _ _ _ _ _ ha hb hs => chain_alike real_blind ha (.cons hb hs)
  | .stringEq | .stringLess =>
    exact fun _ _ _ _ _ _ ha hb hs => chain_alike string_blind ha (.cons hb hs)
  | .max | .min => exact fun _ _ _ _ => extremum_alike
  | .expt => exact fun _ _ _ _ => power_alike
  | .quotient | .remainder | .modulo => exact fun _ _ _ _ => integerDivision_alike
  | .booleanEq => exact fun _ _ _ _ ha hb => chain_alike boolean_blind ha (.cons hb .nil)
  | .symbolEq => exact fun _ _ _ _ ha hb => chain_alike symbol_blind ha (.cons hb .nil)
  | .equal => exact fun _ _ _ _ => equal_alike hC
  | .add1 | .sub1 | .sqr | .sqrt | .exactToInexact | .realPart | .imagPart | .magnitude | .isZero
  | .isExact | .isInexact | .numberToString =>
    exact fun _ _ => map_alike number_blind fun _ => rfl
  | .abs | .floor | .ceiling | .round | .isPositive | .isNegative =>
    exact fun _ _ => map_alike real_blind fun _ => rfl
  | .isEven | .isOdd => exact fun _ _ => map_alike integer_blind fun _ => rfl
  | .numerator | .denominator => exact fun _ _ => fractionPart_alike
  | .inexactToExact => exact fun _ _ => toExact_alike
  | .not => exact fun _ _ => map_alike boolean_blind fun _ => rfl
  | .stringLength | .stringToSymbol | .stringUpcase | .stringDowncase =>
    exact fun _ _ => map_alike string_blind fun _ => rfl
  | .stringToNumber =>
    refine fun _ _ => map_alike string_blind fun s => ?_
    split <;> rfl
  | .symbolToString => exact fun _ _ => map_alike symbol_blind fun _ => rfl
  | .length => exact fun _ _ => length_alike
  | .isNumber | .isComplex => exact fun v w h => passes_alike (number_blind v w h)
  | .isReal => exact fun v w h => passes_alike (real_blind v w h)
  | .isRational => exact fun v w h => passes_alike (rational_blind v w h)
  | .isInteger => exact fun v w h => passes_alike (integer_blind v w h)
  | .isBoolean => exact fun v w h => passes_alike (boolean_blind v w h)
  | .isString => exact fun v w h => passes_alike (string_blind v w h)
  | .isSymbol => exact fun v w h => passes_alike (symbol_blind v w h)
  | .isCons => exact fun _ _ h => passes_alike (nonEmptyList_alike h)
  | .isEmpty => exact fun _ _ => isEmpty_alike
  | .isList => exact fun _ _ => isList_alike

theorem Primitive.apply_alike (hC : Named C) (p : Primitive) {args args' : List Value}
    (h : AllAlike C args args') : AnswersAlike C (p.apply args) (p.apply args') :=
  Operation.apply_alike (p.operation_respects hC) h

/-! ### Structure types -/

abbrev ResultsAlike (C : ClosureRel) : Except EvalError Value → Except EvalError Value → Prop :=
  Agrees (Value.Alike C) (EvalError.Alike C)

namespace StructType

variable {t : StructType} {args args' : List Value}

theorem construct_alike (h : AllAlike C args args') :
    ResultsAlike C (t.construct args) (t.construct args') := by
  rw [construct, construct, h.length_eq]
  split
  · exact .ok (alike_record.mpr ⟨rfl, h⟩)
  · exact .error .refl

theorem test_alike (h : AllAlike C args args') :
    ResultsAlike C (t.test args) (t.test args') := by
  match h with
  | .nil => exact .error .refl
  | @List.Forall₂.cons _ _ _ v _ _ _ h .nil =>
    cases h with
    | atom hv => cases v <;> exact .ok (.atom rfl)
    | _ => exact .ok (.atom rfl)
  | .cons _ (.cons _ hs) =>
    rw [test, test, List.length_cons, List.length_cons, List.length_cons, List.length_cons,
      hs.length_eq]
    · exact .error .refl
    all_goals simp

theorem access_alike {i : Nat} (h : AllAlike C args args') :
    ResultsAlike C (t.access i args) (t.access i args') := by
  match h with
  | .nil => exact .error .refl
  | @List.Forall₂.cons _ _ _ v _ _ _ h .nil =>
    cases h with
    | atom hv => cases v <;> first | exact .error .refl | simp [isAtom] at hv
    | pair hfirst hrest => exact .error (.notInstance (.pair hfirst hrest))
    | closure hc => exact .error (.notInstance (.closure hc))
    | @record u fields fields' hn hf =>
      rw [access, access]
      split
      · have hfields : AllAlike C fields fields' :=
          List.forall₂_iff_zip.mpr ⟨hn, fun h => hf _ _ h⟩
        rcases Nat.lt_or_ge i fields.length with hi | hi
        · rw [List.getElem?_eq_getElem hi, List.getElem?_eq_getElem (hn ▸ hi)]
          exact .ok (hfields.get hi (hn ▸ hi))
        · rw [List.getElem?_eq_none hi, List.getElem?_eq_none (hn ▸ hi)]
          exact .error .refl
      · exact .error (.notInstance (.record hn hf))
  | .cons _ (.cons _ hs) =>
    rw [access, access, List.length_cons, List.length_cons, List.length_cons, List.length_cons,
      hs.length_eq]
    · exact .error .refl
    all_goals simp

end StructType

/-! ### Calls -/

/-- Calls of anything but closures look neither at the definitions nor at the depth. -/
theorem Value.call_alike (hC : Named C) {globals globals' : Bindings} {depth depth' : Nat}
    {v v' : Value} {args args' : List Value} (hv : Alike C v v') (hargs : AllAlike C args args')
    (hne : ∀ code held, v' ≠ .closure code held) :
    ResultsAlike C (v.call globals depth args) (v'.call globals' depth' args') := by
  rw [Value.call.eq_def, Value.call.eq_def]
  cases hv with
  | @atom v hv =>
    cases v with
    | primitive p => exact (p.apply_alike hC hargs).mapError fun _ _ h => .primitive h
    | constructor t => exact t.construct_alike hargs
    | predicate t => exact t.test_alike hargs
    | accessor t i => exact t.access_alike hargs
    | _ => first | exact .error .refl | simp [isAtom] at hv
  | pair hfirst hrest => exact .error (.notProcedure (.pair hfirst hrest))
  | closure hc => exact absurd rfl (hne _ _)
  | record hn hf => exact .error (.notProcedure (.record hn hf))

end BeginningStudent
