import BeginningStudent.Proofs.Primitives
import BeginningStudent.Symbols

/-!
# Tables of names

What the symbol table knows inside of a function: the parameters around the place, and behind them
the names of the top level and of the language.
-/

namespace BeginningStudent

/-! ### Kinds of names -/

namespace Kind

def isReadable : Kind → Bool
  | .value | .parameter | .builtinLiteral => true
  | _ => false

def admits : Kind → Nat → Bool
  | .function a, n => a.accepts n
  | .builtinFunction a, n => a.admits n
  | _, _ => false

end Kind

/-- What a name stands for that is not a parameter, given the names of the top level. -/
def Scope.kind? (top : Scope) (s : String) : Option Kind := top.lookup s <|> Kind.ofBuiltin? s

/-- All that is defined in the second scope is defined in the first, and stands for the same. -/
def Scope.Extends (top' top : Scope) : Prop := ∀ s k, top.kind? s = some k → top'.kind? s = some k

/-! ### Tables with parameters -/

namespace SymbolTable

def params (t : SymbolTable) : List String := t.inner.flatten.map Prod.fst

def OnlyParams (t : SymbolTable) : Prop := ∀ b ∈ t.inner.flatten, b.2 = .parameter

theorem findSome?_lookup (scopes : List Scope) (s : String) :
    scopes.findSome? (·.lookup s) = scopes.flatten.lookup s := by
  induction scopes with
  | nil => rfl
  | cons scope scopes ih =>
    rw [List.findSome?_cons, List.flatten_cons, List.lookup_append, ih]
    cases scope.lookup s <;> rfl

theorem lookup_eq_some {s : String} {bs : Scope} (h : ∀ b ∈ bs, b.2 = .parameter)
    (hs : s ∈ bs.map Prod.fst) : bs.lookup s = some .parameter := by
  induction bs with
  | nil => simp at hs
  | cons b bs ih =>
    obtain ⟨s', k⟩ := b
    obtain rfl : k = .parameter := h (s', k) List.mem_cons_self
    by_cases hb : s = s'
    · simp [hb]
    · have hmem : s ∈ bs.map Prod.fst := by simpa [hb] using hs
      have hne : (s == s') = false := by simpa using hb
      rw [List.lookup_cons, hne]
      exact ih (fun b hb => h b (List.mem_cons_of_mem _ hb)) hmem

theorem lookup_eq_none {α : Type} {s : String} {bs : List (String × α)} :
    bs.lookup s = none ↔ s ∉ bs.map Prod.fst := by
  rw [List.lookup_eq_none_iff, List.mem_map]
  constructor
  · rintro h ⟨b, hb, rfl⟩
    simpa using h b hb
  · intro h b hb
    simpa using fun hs => h ⟨b, hb, hs.symm⟩

theorem lookup_param {t : SymbolTable} {s : String} (ht : t.OnlyParams) (hs : s ∈ t.params) :
    t.lookup s = some .parameter := by
  rw [lookup, findSome?_lookup, lookup_eq_some ht hs]
  rfl

theorem lookup_top {t : SymbolTable} {s : String} (hs : s ∉ t.params) :
    t.lookup s = t.top.kind? s := by
  rw [lookup, findSome?_lookup, lookup_eq_none.mpr hs]
  rfl

/-! ### The scope of a body -/

theorem foldl_define (params : List String) (t : SymbolTable) (scope : Scope) (outer : List Scope)
    (ht : t.inner = scope :: outer) :
    params.foldl (·.define · .parameter) t =
      { t with inner := ((params.map (·, Kind.parameter)).reverse ++ scope) :: outer } := by
  induction params generalizing t scope with
  | nil => simp [← ht]
  | cons s params ih =>
    have hd : t.define s .parameter = { t with inner := ((s, .parameter) :: scope) :: outer } := by
      simp [define, ht]
    rw [List.foldl_cons, hd, ih _ ((s, .parameter) :: scope) rfl]
    simp

theorem pushParams_eq (t : SymbolTable) (params : List String) :
    t.pushParams params =
      { t with inner := (params.map (·, Kind.parameter)).reverse :: t.inner } := by
  rw [pushParams, foldl_define params t.push [] t.inner rfl]
  simp [push]

theorem pushParams_top (t : SymbolTable) (params : List String) :
    (t.pushParams params).top = t.top := by
  rw [pushParams_eq]

theorem params_pushParams (t : SymbolTable) (params : List String) :
    (t.pushParams params).params = params.reverse ++ t.params := by
  rw [pushParams_eq]
  simp [SymbolTable.params, Function.comp_def]

theorem OnlyParams.pushParams {t : SymbolTable} (ht : t.OnlyParams) (params : List String) :
    (t.pushParams params).OnlyParams := by
  intro b hb
  rw [pushParams_eq] at hb
  simp only [List.flatten_cons, List.mem_append, List.mem_reverse, List.mem_map] at hb
  rcases hb with ⟨s, -, rfl⟩ | hb
  · rfl
  · exact ht b hb

end SymbolTable

end BeginningStudent
