import BeginningStudent.Proofs.Made
import BeginningStudent.Proofs.Numerals

/-!
# The text of values as a source

The text of a value that is built from data that can be written down is read as one form, which
makes the value again (`Value.Plain.reads`). Its atoms are scanned back one by one
(`Value.scan_printed_atom`).
-/

namespace BeginningStudent

instance RealNumber.decidableIsInt : (r : RealNumber) → Decidable (∃ n, r = .ofInt n)
  | .exact q => decidable_of_iff (q.num = q) ⟨fun h => ⟨q.num, by rw [ofInt, h]⟩, by
      rintro ⟨n, h⟩
      cases h
      simp⟩
  | .inexact _ | .float _ => .isFalse (by simp [ofInt])

namespace Value

/-- The value is built from booleans, strings, exact integers, exact complex numbers with integer
parts, the empty list, symbols whose names are single tokens, lists and instances of structures. -/
inductive Plain : Value → Prop
  | boolean (b : Bool) : Plain (.boolean b)
  | string (s : String) : Plain (.string s)
  | integer (n : Int) : Plain (.number (.ofInt n))
  | complex (re im : Int) : Plain (.number (.complex (.ofInt re) (.ofInt im)))
  | symbol {s} (hs : Token.IsName s) : Plain (.symbol s)
  | empty : Plain .empty
  | pair {first rest} (hfirst : Plain first) (hrest : Plain rest) (hl : rest.isList = true) :
    Plain (.pair first rest)
  | record {t fields} (hf : ∀ v ∈ fields, Plain v) : Plain (.record t fields)

theorem plain_real {r : RealNumber} : (number (.real r)).Plain ↔ ∃ n, r = .ofInt n := by
  constructor
  · intro h
    cases h with
    | integer n => exact ⟨n, rfl⟩
  · rintro ⟨n, rfl⟩
    exact .integer n

theorem plain_complex {re im : RealNumber} :
    (number (.complex re im)).Plain ↔ (∃ n, re = .ofInt n) ∧ ∃ n, im = .ofInt n := by
  constructor
  · intro h
    cases h with
    | complex re im => exact ⟨⟨re, rfl⟩, im, rfl⟩
  · rintro ⟨⟨re, rfl⟩, im, rfl⟩
    exact .complex re im

theorem plain_symbol {s : String} : (symbol s).Plain ↔ Token.IsName s := by
  constructor
  · intro h
    cases h with
    | symbol hs => exact hs
  · exact .symbol

theorem plain_pair {first rest : Value} :
    (pair first rest).Plain ↔ first.Plain ∧ rest.Plain ∧ rest.isList = true := by
  constructor
  · intro h
    cases h with
    | pair hfirst hrest hl => exact ⟨hfirst, hrest, hl⟩
  · rintro ⟨hfirst, hrest, hl⟩
    exact .pair hfirst hrest hl

theorem plain_record {t : StructType} {fields : List Value} :
    (record t fields).Plain ↔ ∀ v ∈ fields, v.Plain := by
  constructor
  · intro h
    cases h with
    | record hf => exact hf
  · exact .record

mutual

instance decidablePlain : (v : Value) → Decidable v.Plain
  | .boolean b => .isTrue (.boolean b)
  | .string s => .isTrue (.string s)
  | .empty => .isTrue .empty
  | .number (.real _) => decidable_of_iff _ plain_real.symm
  | .number (.complex _ _) => decidable_of_iff _ plain_complex.symm
  | .symbol s => decidable_of_iff (Token.ofSource s = .ok [.name s]) plain_symbol.symm
  | .pair first rest =>
    have := decidablePlain first
    have := decidablePlain rest
    decidable_of_iff _ plain_pair.symm
  | .record _ fields =>
    have := decidableAllPlain fields
    decidable_of_iff _ plain_record.symm
  | .closure _ _ | .primitive _ | .constructor _ | .predicate _ | .accessor _ _ | .structType _ =>
    .isFalse (by rintro ⟨⟩)

instance decidableAllPlain : (vs : List Value) → Decidable (∀ v ∈ vs, v.Plain)
  | [] => .isTrue (by simp)
  | v :: vs =>
    have := decidablePlain v
    have := decidableAllPlain vs
    decidable_of_iff (v.Plain ∧ ∀ w ∈ vs, w.Plain) List.forall_mem_cons.symm

end
/-! ### Forms of values -/

mutual

/-- The form that makes a plain value. Other values have the form of the empty group, which is no
expression. -/
def form : Value → Form
  | .boolean b => .boolean b
  | .number z => .number z
  | .string s => .string s
  | .symbol s => (Form.name s).quoted
  | .empty => (Form.group []).quoted
  | .pair first rest => .group [.name Primitive.cons.name, first.form, rest.form]
  | .record t fields => .group (.name t.constructorName :: forms fields)
  | _ => .group []

def forms : List Value → List Form
  | [] => []
  | v :: vs => v.form :: forms vs

end

end Value

/-! ### Texts of forms -/

open Token Form

/-- In front of any text that ends a word, the text is scanned as the given tokens. -/
def Scans (text : List Char) (ts : List Token) : Prop :=
  ∀ x, EndsWord x → scan (text ++ x) = (ts ++ (scan x).1, (scan x).2)

/-- The text is read as the form, wherever it stands. -/
def Reads (text : List Char) (f : Form) : Prop :=
  ∃ ts, Scans text ts ∧ ∀ s : ReadState, readOnto s ts = .ok (.push s.done f s.pending)

/-- The text, which ends a word before it, is read as forms that follow each other in a group. -/
def ReadsItems (text : List Char) (fs : List Form) : Prop :=
  (∀ x, EndsWord x → EndsWord (text ++ x)) ∧
  ∃ ts, Scans text ts ∧ ∀ done b items outer,
    readOnto ⟨done, .group b items :: outer⟩ ts = .ok ⟨done, .group b (fs.reverse ++ items) :: outer⟩

theorem Reads.token {text : List Char} {t : Token} {f : Form}
    (hscan : ∀ x, EndsWord x → scan (text ++ x) = (t :: (scan x).1, (scan x).2))
    (hread : ∀ s : ReadState, s.step t = .ok (.push s.done f s.pending)) : Reads text f := by
  refine ⟨[t], hscan, fun s => ?_⟩
  rw [readOnto, List.foldlM_cons, hread]
  rfl

theorem Reads.quoted {text : List Char} {f : Form} (h : Reads text f) :
    Reads ('\'' :: text) f.quoted := by
  obtain ⟨ts, hscan, hread⟩ := h
  refine ⟨.quote :: ts, fun x hx => ?_, fun s => ?_⟩
  · rw [List.cons_append, scan_quote, hscan x hx]
    rfl
  · exact hread ⟨s.done, .quote :: s.pending⟩

theorem ReadsItems.nil : ReadsItems [] [] :=
  ⟨fun _ hx => hx, [], fun _ _ => rfl, fun _ _ _ _ => rfl⟩

theorem ReadsItems.cons {text rest : List Char} {f : Form} {fs : List Form} (h : Reads text f)
    (hrest : ReadsItems rest fs) : ReadsItems (' ' :: (text ++ rest)) (f :: fs) := by
  obtain ⟨ts, hscan, hread⟩ := h
  obtain ⟨hends, us, hscan', hread'⟩ := hrest
  refine ⟨fun x _ => endsWord_cons (by decide) _, ts ++ us, fun x hx => ?_, ?_⟩
  · rw [List.cons_append, scan_space, List.append_assoc, hscan _ (hends x hx), hscan' x hx]
    simp
  · intro done b items outer
    rw [readOnto_append, hread]
    refine (hread' done b (f :: items) outer).trans ?_
    simp

theorem Reads.call {name : String} {text : List Char} {fs : List Form}
    (hname : ∀ x, EndsWord x → scan (name.toList ++ x) = (.name name :: (scan x).1, (scan x).2))
    (h : ReadsItems text fs) :
    Reads ('(' :: (name.toList ++ (text ++ [')']))) (.group (.name name :: fs)) := by
  obtain ⟨hends, ts, hscan, hread⟩ := h
  refine ⟨.opening .round :: .name name :: (ts ++ [.closing .round]), ?_, ?_⟩
  · intro x _
    have hclose : EndsWord (')' :: x) := endsWord_cons (by decide) x
    have hopening : scan ('(' :: (name.toList ++ (text ++ ')' :: x))) =
        (.opening .round :: (scan (name.toList ++ (text ++ ')' :: x))).1,
          (scan (name.toList ++ (text ++ ')' :: x))).2) :=
      scan_opening .round _
    have hclosing : scan (')' :: x) = (.closing .round :: (scan x).1, (scan x).2) :=
      scan_closing .round x
    rw [hname _ (hends _ hclose), hscan _ hclose, hclosing] at hopening
    simpa using hopening
  · intro s
    have hitems := hread s.done .round [.name name] s.pending
    have hopened : readOnto s (.opening .round :: .name name :: (ts ++ [.closing .round])) =
        readOnto ⟨s.done, .group .round [.name name] :: s.pending⟩ (ts ++ [.closing .round]) := rfl
    rw [hopened, readOnto_append, hitems]
    have hclosed : ReadState.close ⟨s.done, .group .round (fs.reverse ++ [.name name]) :: s.pending⟩
        .round = .ok (.push s.done (.group (.name name :: fs)) s.pending) := by
      simp [ReadState.close]
    exact hclosed

theorem reads_empty : Reads ['(', ')'] (.group []) := by
  refine ⟨[.opening .round, .closing .round], ?_, fun s => rfl⟩
  intro x _
  have hopening := scan_opening .round (')' :: x)
  have hclosing : scan (')' :: x) = (.closing .round :: (scan x).1, (scan x).2) :=
    scan_closing .round x
  rw [hclosing] at hopening
  exact hopening

/-! ### Atoms -/

namespace Value

theorem scan_boolean (b : Bool) {x : List Char} (hx : EndsWord x) :
    scan ((text (.boolean b)).toList ++ x) = (.boolean b :: (scan x).1, (scan x).2) := by
  cases b with
  | true => exact scan_word (by decide) (by decide) rfl hx
  | false => exact scan_word (by decide) (by decide) rfl hx

theorem scan_cons_name {x : List Char} (hx : EndsWord x) :
    scan (Primitive.cons.name.toList ++ x) =
      (.name Primitive.cons.name :: (scan x).1, (scan x).2) :=
  scan_word (by decide) (by decide) rfl hx

theorem text_number (z : Number) : (text (.number z)).toList = z.text := by
  simp [text, writeOnto, closers_zero]

theorem text_string (s : String) : (text (.string s)).toList = stringText s := by
  simp [text, writeOnto, closers_zero]

theorem text_symbol (s : String) : (text (.symbol s)).toList = '\'' :: s.toList := by
  simp [text, writeOnto, closers_zero]

/-- Strings and numbers with integer parts are scanned back from their texts: a string whatever
follows it, and a number wherever its word ends. -/
theorem scan_printed_atom :
    (∀ (s : String) (x : List Char),
      scan ((text (.string s)).toList ++ x) = (.string s :: (scan x).1, (scan x).2)) ∧
    ∀ z : Number, z.Collapsed → ∀ re im : Int, z.re = .ofInt re → z.im = .ofInt im →
      ∀ x, EndsWord x →
        scan ((text (.number z)).toList ++ x) = (.number z :: (scan x).1, (scan x).2) := by
  constructor
  · intro s x
    rw [text_string]
    exact scan_string s x
  · intro z hz re im hre him x hx
    rw [text_number]
    exact scan_integerParts hz hre him hx

/-- A string with characters that are escaped, right in front of a word, and a complex number in
front of a closing bracket. -/
theorem scan_printed_atom_complex :
    scan ((text (.string "a\n\"\x07")).toList ++ ['1', 'i']) =
      (.string "a\n\"\x07" :: (scan ['1', 'i']).1, (scan ['1', 'i']).2) ∧
    Number.Collapsed (.complex (.ofInt 3) (.ofInt (-2))) ∧ EndsWord [')'] ∧
    scan ((text (.number (.complex (.ofInt 3) (.ofInt (-2))))).toList ++ [')']) =
      ([.number (.complex (.ofInt 3) (.ofInt (-2))), .closing .round], none) := by
  have hcollapsed : Number.Collapsed (.complex (.ofInt 3) (.ofInt (-2))) := rfl
  have hclose : EndsWord [')'] := endsWord_cons (by decide) []
  have hrest : scan [')'] = (.closing .round :: (scan []).1, (scan []).2) := scan_closing .round []
  rw [scan_nil] at hrest
  refine ⟨scan_printed_atom.1 _ _, hcollapsed, hclose, ?_⟩
  rw [scan_printed_atom.2 _ hcollapsed 3 (-2) rfl rfl _ hclose, hrest]

/-! ### Plain values -/

theorem text_cons (first rest : Value) : (pair first rest).text.toList =
    '(' :: (Primitive.cons.name.toList ++
      ((' ' :: (first.text.toList ++ ' ' :: (rest.text.toList ++ []))) ++ [')'])) := by
  rw [text_pair]
  simp [Primitive.name]

theorem text_make (t : StructType) (fields : List Value) : (record t fields).text.toList =
    '(' :: (t.constructorName.toList ++ ((fieldTexts fields).toList ++ [')'])) := by
  rw [text_record]
  simp [StructType.constructorName]

theorem readsItems_forms {vs : List Value} (h : ∀ v ∈ vs, Reads v.text.toList v.form) :
    ReadsItems (fieldTexts vs).toList (forms vs) := by
  induction vs with
  | nil => exact .nil
  | cons v vs ih =>
    obtain ⟨hv, hvs⟩ := List.forall_mem_cons.mp h
    have htext : (fieldTexts (v :: vs)).toList = ' ' :: (v.text.toList ++ (fieldTexts vs).toList) := by
      rw [fieldTexts_cons]
      simp
    rw [htext]
    exact .cons hv (ih hvs)

theorem Made.im_ne_zero {S : StructType → Prop} {re : RealNumber} {im : Int}
    (h : Made S (.number (.complex re (.ofInt im)))) : im ≠ 0 := by
  cases h with
  | simple hv =>
    have hcollapsed : Number.Collapsed (.complex re (.ofInt im)) := hv
    exact hcollapsed.im_ne_zero

/-- The text of a plain value is read as its form, wherever it stands. -/
theorem Plain.reads {S : StructType → Prop} (hS : ∀ t, S t → Undelimited t.name.toList) {v : Value}
    (hv : v.Plain) (hmade : v.Made S) : Reads v.text.toList v.form := by
  -- Where a part of the value stands makes no difference, so its own text is all that counts.
  induction hv with
  | boolean b => exact .token (fun x hx => scan_boolean b hx) fun _ => rfl
  | string s =>
    rw [text_string]
    exact .token (fun x _ => scan_string s x) fun _ => rfl
  | integer n =>
    rw [text_number]
    exact .token (fun x hx => scan_integer n hx) fun _ => rfl
  | complex re im =>
    rw [text_number]
    exact .token (fun x hx => scan_complex re hmade.im_ne_zero hx) fun _ => rfl
  | @symbol s hs =>
    rw [text_symbol]
    have hname : Reads s.toList (.name s) := .token (fun x hx => scan_name hs hx) fun _ => rfl
    exact hname.quoted
  | empty => exact reads_empty.quoted
  | @pair first rest _ _ _ ihfirst ihrest =>
    obtain ⟨hfirst, hrest⟩ := (made_listClosed S).parts first rest hmade
    have hitems : ReadsItems (' ' :: (first.text.toList ++ ' ' :: (rest.text.toList ++ [])))
        [first.form, rest.form] :=
      .cons (ihfirst hfirst) (.cons (ihrest hrest) .nil)
    rw [text_cons]
    exact .call (fun x hx => scan_cons_name hx) hitems
  | @record t fields _ ih =>
    obtain ⟨ht, -, hfields⟩ := hmade.record_inv
    have hitems : ReadsItems (fieldTexts fields).toList (forms fields) :=
      readsItems_forms fun v hv => ih v hv (hfields v hv)
    rw [text_make]
    exact .call (fun x hx => scan_make (hS t ht) hx) hitems

theorem Plain.readSource {S : StructType → Prop} (hS : ∀ t, S t → Undelimited t.name.toList)
    {v : Value} (hv : v.Plain) (hmade : v.Made S) : readSource v.text = .ok [v.form] := by
  obtain ⟨ts, hscan, hread⟩ := hv.reads hS hmade
  have htokens := hscan [] endsWord_nil
  rw [List.append_nil, scan_nil] at htokens
  have hsource : Token.ofSource v.text = .ok ts := by simp [Token.ofSource, htokens]
  have hforms : Form.read ts = .ok [v.form] := by
    rw [Form.read, hread]
    rfl
  exact readSource_ok.mpr ⟨ts, hsource, hforms⟩

end Value
end BeginningStudent
