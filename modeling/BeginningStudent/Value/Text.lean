import BeginningStudent.Value

/-!
# The text of values

How a value is shown to the student. Pairs are written as nested `cons` calls and instances as
constructor calls, so that the text of plain data is a program that makes it again. The recursion
is along the rests of pairs, with the closing brackets counted; `text_pair` gives the plain rule.
-/

namespace BeginningStudent.Value

def escape (c : Char) : List Char :=
  if c = '"' then ['\\', '"']
  else if c = '\\' then ['\\', '\\']
  else if c = '\n' then ['\\', 'n']
  else if c = '\t' then ['\\', 't']
  else if c = '\r' then ['\\', 'r']
  else [c]

def stringText (s : String) : List Char := '"' :: (s.toList.flatMap escape ++ ['"'])

def closers (n : Nat) : String := String.ofList (List.replicate n ')')

mutual

/-- Writes a value behind `acc`, and `n` closing brackets behind it. -/
def writeOnto (acc : String) (n : Nat) : Value → String
  | .pair first rest => writeOnto (writeOnto (acc ++ "(cons ") 0 first ++ " ") (n + 1) rest
  | .record t fields => writeAllOnto (acc ++ "(make-" ++ t.name) fields ++ closers (n + 1)
  | .boolean true => acc ++ "#true" ++ closers n
  | .boolean false => acc ++ "#false" ++ closers n
  | .number z => acc ++ String.ofList z.text ++ closers n
  | .string s => acc ++ String.ofList (stringText s) ++ closers n
  | .symbol s => acc ++ "'" ++ s ++ closers n
  | .empty => acc ++ "'()" ++ closers n
  | .structType t => acc ++ "#<struct-type:" ++ t.name ++ ">" ++ closers n
  | .closure code _ => acc ++ "#<procedure:" ++ code.displayName ++ ">" ++ closers n
  | .primitive p => acc ++ "#<procedure:" ++ p.name ++ ">" ++ closers n
  | .constructor t => acc ++ "#<procedure:" ++ t.constructorName ++ ">" ++ closers n
  | .predicate t => acc ++ "#<procedure:" ++ t.predicateName ++ ">" ++ closers n
  | .accessor t i => acc ++ "#<procedure:" ++ t.accessorName (fieldName t i) ++ ">" ++ closers n

def writeAllOnto (acc : String) : List Value → String
  | [] => acc
  | v :: vs => writeAllOnto (writeOnto (acc ++ " ") 0 v) vs

end

def text (v : Value) : String := writeOnto "" 0 v

def fieldTexts (vs : List Value) : String := writeAllOnto "" vs

/-! ### The plain rules -/

theorem closers_zero : closers 0 = "" := rfl

theorem closers_succ (n : Nat) : closers (n + 1) = ")" ++ closers n := by
  rw [← String.toList_inj]
  simp [closers, List.replicate_succ]

mutual

theorem writeOnto_eq (acc : String) (n : Nat) (v : Value) :
    writeOnto acc n v = acc ++ v.text ++ closers n := by
  match v with
  | .pair first rest =>
    rw [text, writeOnto, writeOnto, writeOnto_eq _ 0 first, writeOnto_eq _ 0 first,
      writeOnto_eq _ (n + 1) rest, writeOnto_eq _ (0 + 1) rest]
    simp only [closers_succ, closers_zero, String.append_assoc, String.empty_append,
      String.append_empty]
  | .record t fields =>
    rw [text, writeOnto, writeOnto, writeAllOnto_eq _ fields, writeAllOnto_eq (_ ++ _) fields]
    simp only [closers_succ, closers_zero, String.append_assoc, String.empty_append,
      String.append_empty]
  | .boolean true | .boolean false | .number _ | .string _ | .symbol _ | .empty | .structType _
  | .closure _ _ | .primitive _ | .constructor _ | .predicate _ | .accessor _ _ =>
    simp only [text, writeOnto, closers_zero, String.append_assoc, String.empty_append,
      String.append_empty]

theorem writeAllOnto_eq (acc : String) (vs : List Value) :
    writeAllOnto acc vs = acc ++ fieldTexts vs := by
  match vs with
  | [] => simp [fieldTexts, writeAllOnto]
  | v :: vs =>
    rw [fieldTexts, writeAllOnto, writeAllOnto, writeOnto_eq _ 0 v, writeOnto_eq _ 0 v,
      writeAllOnto_eq _ vs, writeAllOnto_eq (_ ++ _) vs]
    simp only [String.append_assoc, String.empty_append]

end

theorem text_pair (first rest : Value) :
    (pair first rest).text = "(cons " ++ first.text ++ " " ++ rest.text ++ ")" := by
  rw [text, writeOnto, writeOnto_eq, writeOnto_eq]
  simp only [closers_succ, closers_zero, String.empty_append, String.append_empty]

theorem text_record (t : StructType) (fields : List Value) :
    (record t fields).text = "(make-" ++ t.name ++ fieldTexts fields ++ ")" := by
  rw [text, writeOnto, writeAllOnto_eq]
  simp only [closers_succ, closers_zero, String.empty_append, String.append_empty]

theorem fieldTexts_cons (v : Value) (vs : List Value) :
    fieldTexts (v :: vs) = " " ++ v.text ++ fieldTexts vs := by
  rw [fieldTexts, writeAllOnto, writeAllOnto_eq, writeOnto_eq]
  simp only [closers_zero, String.empty_append, String.append_empty]

end BeginningStudent.Value
