import BeginningStudent.Primitive.Operation
import BeginningStudent.Proofs.Yields
import Mathlib.Data.List.Basic

/-!
# What primitives answer

Most primitives answer with a value that has no parts, and with a real where they could answer with
a complex number that has no imaginary part. The rest only put lists together and take them apart,
so every property of values that is `ListClosed` is kept by all primitives
(`Primitive.apply_keeps`). A primitive that takes a fixed number of arguments faults on their
number only when it gets another one.
-/

namespace BeginningStudent

namespace Value

def isFlat : Value → Bool
  | .boolean _ | .number _ | .string _ | .symbol _ | .empty => true
  | _ => false

def Simple : Value → Prop
  | .number z => z.Collapsed
  | v => v.isFlat = true

theorem Simple.isFlat {v : Value} (h : v.Simple) : v.isFlat = true := by
  cases v with
  | number z => rfl
  | _ => exact h

/-- A property of simple values that holds of a list when it holds of its parts, and of the parts of
a pair when it holds of the pair. -/
structure ListClosed (P : Value → Prop) : Prop where
  simple : ∀ v, v.Simple → P v
  pair : ∀ first rest, P first → P rest → rest.isList = true → P (.pair first rest)
  parts : ∀ first rest, P (.pair first rest) → P first ∧ P rest

theorem ListClosed.ofList {P : Value → Prop} (hP : ListClosed P) {vs : List Value}
    (hvs : ∀ v ∈ vs, P v) : P (ofList vs) ∧ (ofList vs).isList = true := by
  induction vs with
  | nil => exact ⟨hP.simple .empty rfl, rfl⟩
  | cons v vs ih =>
    obtain ⟨hrest, hlist⟩ := ih fun w hw => hvs w (List.mem_cons_of_mem _ hw)
    exact ⟨hP.pair _ _ (hvs v List.mem_cons_self) hrest hlist, hlist⟩

end Value

/-- Is a call with `n` arguments let through before the run? Where any number of arguments from
some minimum on is taken, the number is only checked by the run. -/
def Arity.admits : Arity → Nat → Bool
  | .exactly m, n => n == m
  | .atLeast _, _ => true

def Fault.isArity : Fault → Bool
  | .arity _ _ => true
  | _ => false

/-! ### Checks of arguments -/

namespace Argument

/-- The check never complains about the number of arguments. -/
def Fair {α : Type} (check : Value → Except Fault α) : Prop :=
  ∀ v, Yields (fun _ => True) (·.isArity = false) (check v)

theorem number_fair : Fair number := by
  intro v
  cases v <;> trivial

theorem real_fair : Fair real := by
  intro v
  unfold real
  split <;> trivial

theorem rational_fair : Fair rational := by
  intro v
  unfold rational
  repeat' split
  all_goals trivial

theorem integer_fair : Fair integer := by
  intro v
  unfold integer
  repeat' split
  all_goals trivial

theorem natural_fair : Fair natural := by
  intro v
  unfold natural
  repeat' split
  all_goals trivial

theorem boolean_fair : Fair boolean := by
  intro v
  cases v <;> trivial

theorem string_fair : Fair string := by
  intro v
  cases v <;> trivial

theorem symbol_fair : Fair symbol := by
  intro v
  cases v <;> trivial

end Argument

/-! ### Complex results -/

namespace Number

theorem collapsed_ofResult (re im : RealNumber) (exact : Bool) :
    (ofResult re im exact).Collapsed := by
  unfold ofResult
  split <;> exact collapsed_ofParts _ _

theorem collapsed_add (z w : Number) : (z.add w).Collapsed := by
  cases z <;> cases w <;> first | trivial | exact collapsed_ofResult _ _ _

theorem collapsed_mul (z w : Number) : (z.mul w).Collapsed := by
  cases z <;> cases w <;> first | trivial | exact collapsed_ofResult _ _ _

theorem collapsed_negate (z : Number) : z.negate.Collapsed := by
  cases z with
  | real => trivial
  | complex => exact collapsed_ofParts _ _

theorem collapsed_toInexact (z : Number) : z.toInexact.Collapsed := by
  cases z with
  | real => trivial
  | complex => exact collapsed_ofParts _ _

theorem collapsed_toExact (z : Number) : Yields Collapsed (fun _ => True) z.toExact := by
  have hany : ∀ r : RealNumber, Yields (fun _ => True) (fun _ => True) r.toExact := by
    intro r
    cases r.toExact <;> trivial
  cases z with
  | real r => exact (hany r).map fun _ _ => trivial
  | complex re im =>
    exact (hany re).bind fun _ _ => (hany im).bind fun _ _ => collapsed_ofParts _ _

theorem collapsed_invert (z : Number) : Yields Collapsed (fun _ => True) z.invert := by
  have hany : ∀ r : RealNumber, Yields (fun _ => True) (fun _ => True) r.invert := by
    intro r
    cases r.invert <;> trivial
  cases z with
  | real r => exact (hany r).map fun _ _ => trivial
  | complex re im => exact (hany _).bind fun _ _ => collapsed_ofParts _ _

theorem collapsed_div (z w : Number) : Yields Collapsed (fun _ => True) (z.div w) :=
  (collapsed_invert w).map fun _ _ => collapsed_mul _ _

theorem collapsed_sqrtReal (r : RealNumber) : (sqrtReal r).Collapsed := by
  unfold sqrtReal
  split
  · exact collapsed_ofParts _ _
  · trivial

theorem collapsed_sqrt (z : Number) : z.sqrt.Collapsed := by
  cases z with
  | real r => exact collapsed_sqrtReal r
  | complex re im =>
    rw [sqrt]
    · exact collapsed_ofParts _ _
    · simp

theorem collapsed_magnitude (z : Number) : z.magnitude.Collapsed := by
  cases z with
  | real r => trivial
  | complex => exact collapsed_sqrtReal _

theorem collapsed_mulPow {acc : Number} (hacc : acc.Collapsed) (square : Number) (n : Nat) :
    (mulPow acc square n).Collapsed := by
  fun_induction mulPow acc square n with
  | case1 => exact hacc
  | case2 acc square n hn next hnext =>
    simp only [next]
    split
    · exact collapsed_mul _ _
    · exact hacc
  | case3 acc square n hn next hnext ih =>
    refine ih ?_
    simp only [next]
    split
    · exact collapsed_mul _ _
    · exact hacc

theorem collapsed_intPow (z : Number) (n : Int) : Yields Collapsed (fun _ => True) (z.intPow n) := by
  have hone : (ofInt 1).Collapsed := trivial
  unfold intPow
  split
  · exact (collapsed_invert z).bind fun base _ => collapsed_mulPow hone base _
  · exact collapsed_mulPow hone z _

theorem collapsed_inexactPow (z w : Number) : (expt.inexactPow z w).Collapsed := by
  unfold expt.inexactPow
  split
  · split
    · exact collapsed_ofParts _ _
    · trivial
  · exact collapsed_ofParts _ _

theorem collapsed_denote (mark : Option Literal.Mark) (shape : Literal.Shape) :
    Yields Collapsed (fun _ => True) (shape.denote mark) := by
  have hany : ∀ r : Literal.Signed, Yields (fun _ => True) (fun _ => True) (r.denote mark) := by
    intro r
    cases r.denote mark <;> trivial
  cases shape with
  | real re => exact (hany re).map fun _ _ => trivial
  | complex re im =>
    exact (hany re).bind fun _ _ => (hany im).bind fun _ _ => collapsed_ofParts _ _

theorem collapsed_number? {s : List Char} {z : Number} (h : Literal.number? s = some (.ok z)) :
    z.Collapsed := by
  unfold Literal.number? at h
  obtain ⟨⟨mark, body⟩, -, h⟩ := Option.bind_eq_some_iff.mp h
  obtain ⟨shape, -, h⟩ := Option.bind_eq_some_iff.mp h
  have hdenote := collapsed_denote mark shape
  rw [Option.some.inj h] at hdenote
  exact hdenote

theorem collapsed_expt (z w : Number) : Yields Collapsed (fun _ => True) (z.expt w) := by
  unfold expt
  split
  · split
    · exact collapsed_intPow _ _
    · exact collapsed_inexactPow _ _
  · exact collapsed_inexactPow _ _

end Number

namespace Operation

open Argument

/-- The result is a simple value, or a fault about something else than the number of arguments. -/
def Flat (r : Except Fault Value) : Prop := Yields Value.Simple (·.isArity = false) r

theorem flat_map {α : Type} {check : Value → Except Fault α} {g : α → Value} {v : Value}
    (hc : Fair check) (hg : ∀ a, (g a).Simple) : Flat (g <$> check v) :=
  (hc v).map fun a _ => hg a

theorem orBlame_fair {α : Type} {P : α → Prop} {given : Value} {r : Except ArithmeticFault α}
    (hr : Yields P (fun _ => True) r) : Yields P (·.isArity = false) (orBlame given r) := by
  rcases r with e | z
  · cases e <;> rfl
  · exact hr

theorem flat_orBlame {given : Value} {r : Except ArithmeticFault Number}
    (hr : Yields Number.Collapsed (fun _ => True) r) : Flat (.number <$> orBlame given r) :=
  (orBlame_fair hr).map fun _ hz => hz

theorem flat_orBlame_real {given : Value} {r : Except ArithmeticFault RealNumber} :
    Flat (ofReal <$> orBlame given r) := by
  rcases r with e | z
  · cases e <;> rfl
  · trivial

theorem flat_chain {α : Type} {check : Value → Except Fault α} {holds : α → α → Bool}
    {first : Value} {others : List Value} (hc : Fair check) :
    Flat (chain check holds first others) := by
  refine (hc first).bind fun a _ => ?_
  refine (Yields.foldlM (P := fun _ => True) others trivial ?_).bind fun _ _ => rfl
  exact fun acc _ v _ => (hc v).bind fun _ _ => trivial

/-! ### Primitives on numbers -/

theorem flat_accumulate {combine : Number → Number → Number} {first second : Value}
    {others : List Value} (hc : ∀ z w, (combine z w).Collapsed) :
    Flat (accumulate combine first (second :: others)) := by
  refine (number_fair first).bind fun z _ => ?_
  rw [List.foldlM_cons]
  refine Yields.bind (P := Number.Collapsed) ?_ fun _ hz => hz
  refine ((number_fair second).map fun w _ => hc z w).bind fun total htotal => ?_
  exact Yields.foldlM others htotal fun total _ v _ => (number_fair v).map fun w _ => hc total w

theorem flat_difference {first : Value} {others : List Value} : Flat (difference first others) := by
  cases others with
  | nil => exact flat_map number_fair Number.collapsed_negate
  | cons second others => exact flat_accumulate fun _ _ => Number.collapsed_add _ _

theorem flat_ratio {first second : Value} {others : List Value} :
    Flat (ratio first second others) := by
  have hstep : ∀ (total : Number) (v : Value), Yields Number.Collapsed (·.isArity = false)
      (do orBlame v (total.div (← number v))) := fun total v =>
    (number_fair v).bind fun w _ => orBlame_fair (Number.collapsed_div total w)
  refine (number_fair first).bind fun z _ => ?_
  rw [List.foldlM_cons]
  refine Yields.bind (P := Number.Collapsed) ?_ fun _ hz => hz
  exact (hstep z second).bind fun total htotal =>
    Yields.foldlM others htotal fun total _ v _ => hstep total v

theorem flat_power {base exponent : Value} : Flat (power base exponent) :=
  (number_fair base).bind fun z _ =>
    (number_fair exponent).bind fun w _ => flat_orBlame (Number.collapsed_expt z w)

theorem flat_extremum {better : Ordering} {first : Value} {others : List Value} :
    Flat (extremum better first others) := by
  refine (real_fair first).bind fun r _ => ?_
  refine (Yields.foldlM (P := fun _ => True) others trivial ?_).bind fun _ _ => trivial
  exact fun acc _ v _ => (real_fair v).bind fun _ _ => trivial

theorem flat_integerDivision {divide : RealNumber → RealNumber → Except ArithmeticFault RealNumber}
    {dividend divisor : Value} : Flat (integerDivision divide dividend divisor) :=
  (integer_fair dividend).bind fun _ _ => (integer_fair divisor).bind fun _ _ => flat_orBlame_real

theorem flat_fractionPart {part : RealNumber → Except ArithmeticFault RealNumber} {v : Value} :
    Flat (fractionPart part v) :=
  (rational_fair v).bind fun _ _ => flat_orBlame_real

theorem flat_toExact {v : Value} : Flat (toExact v) :=
  (number_fair v).bind fun z _ => flat_orBlame (Number.collapsed_toExact z)

/-! ### Primitives on strings -/

theorem flat_stringAppend {vs : List Value} : Flat (stringAppend vs) := by
  refine (Yields.foldlM (P := fun _ => True) vs trivial ?_).map fun _ _ => rfl
  exact fun s _ v _ => (string_fair v).map fun _ _ => trivial

theorem flat_stringToNumber {v : Value} : Flat (stringToNumber v) := by
  refine flat_map string_fair fun s => ?_
  split
  · next hz => exact Number.collapsed_number? hz
  · rfl

theorem slice_fair {cs : List Char} {i j : Nat} :
    Yields (fun _ => True) (·.isArity = false) (slice cs i j) := by
  unfold slice
  repeat' split
  all_goals trivial

theorem substring_isFlat {text start : Value} {others : List Value} :
    Yields Value.Simple (fun _ => True) (substring text start others) := by
  unfold substring
  split
  · refine (string_fair text).anyError.bind fun s _ => ?_
    refine (natural_fair start).anyError.bind fun i _ => ?_
    exact slice_fair.anyError.bind fun _ _ => rfl
  · refine (string_fair text).anyError.bind fun s _ => ?_
    refine (natural_fair start).anyError.bind fun i _ => ?_
    refine (natural_fair _).anyError.bind fun j _ => ?_
    exact slice_fair.anyError.bind fun _ _ => rfl
  · trivial

/-! ### All primitives -/

/-- On arguments that satisfy `P`, the operation answers with a value that satisfies `P`. If it
takes a fixed number of arguments, it does not fault on their number. -/
def Keeps (P : Value → Prop) : Operation → Prop
  | .unary f => ∀ a, P a → Yields P (·.isArity = false) (f a)
  | .binary f => ∀ a b, P a → P b → Yields P (·.isArity = false) (f a b)
  | .atLeastZero f => ∀ as, (∀ a ∈ as, P a) → Yields P (fun _ => True) (f as)
  | .atLeastOne f => ∀ a as, (∀ b ∈ a :: as, P b) → Yields P (fun _ => True) (f a as)
  | .atLeastTwo f => ∀ a b as, (∀ c ∈ a :: b :: as, P c) → Yields P (fun _ => True) (f a b as)

variable {P : Value → Prop}

theorem cons_keeps (hP : Value.ListClosed P) : Keeps P (.binary cons) := by
  intro first rest hfirst hrest
  unfold cons
  split
  · exact hP.pair _ _ hfirst hrest ‹_›
  · rfl

theorem first_keeps (hP : Value.ListClosed P) : Keeps P (.unary first) := by
  intro v hv
  cases v with
  | pair a b => exact (hP.parts a b hv).1
  | _ => rfl

theorem rest_keeps (hP : Value.ListClosed P) : Keeps P (.unary rest) := by
  intro v hv
  cases v with
  | pair a b => exact (hP.parts a b hv).2
  | _ => rfl

theorem length_flat {v : Value} : Flat (length v) := by
  unfold length
  split
  · trivial
  · rfl

section Flat

variable (hP : Value.ListClosed P)
include hP

theorem keeps_unary {f : Value → Except Fault Value} (hf : ∀ v, Flat (f v)) :
    Keeps P (.unary f) :=
  fun v _ => (hf v).mono hP.simple fun _ h => h

theorem keeps_binary {f : Value → Value → Except Fault Value} (hf : ∀ v w, Flat (f v w)) :
    Keeps P (.binary f) :=
  fun v w _ _ => (hf v w).mono hP.simple fun _ h => h

theorem keeps_atLeastOne {f : Value → List Value → Except Fault Value}
    (hf : ∀ v vs, Flat (f v vs)) : Keeps P (.atLeastOne f) :=
  fun v vs _ => (hf v vs).mono hP.simple fun _ _ => trivial

theorem keeps_atLeastTwo {f : Value → Value → List Value → Except Fault Value}
    (hf : ∀ v w vs, Flat (f v w vs)) : Keeps P (.atLeastTwo f) :=
  fun v w vs _ => (hf v w vs).mono hP.simple fun _ _ => trivial

end Flat

/-- An operation keeps `P` when it is called with a number of arguments that its arity admits. It
can still fault on their number when it takes any number from some minimum on. -/
theorem apply_keeps {op : Operation} {args : List Value} (hop : op.Keeps P)
    (hargs : ∀ a ∈ args, P a) (hn : op.arity.admits args.length = true) :
    Yields P (fun e => e.isArity = true → ∃ m, op.arity = .atLeast m) (op.apply args) := by
  cases op with
  | unary f =>
    have hone : args.length = 1 := by simpa [arity, Arity.admits] using hn
    obtain ⟨a, rfl⟩ := List.length_eq_one_iff.mp hone
    exact (hop a (hargs a (by simp))).mono (fun _ h => h) fun e he h => by simp [he] at h
  | binary f =>
    have htwo : args.length = 2 := by simpa [arity, Arity.admits] using hn
    obtain ⟨a, b, rfl⟩ := List.length_eq_two.mp htwo
    exact (hop a b (hargs a (by simp)) (hargs b (by simp))).mono (fun _ h => h)
      fun e he h => by simp [he] at h
  | atLeastZero f => exact (hop args hargs).mono (fun _ h => h) fun _ _ _ => ⟨0, rfl⟩
  | atLeastOne f =>
    cases args with
    | nil => exact fun _ => ⟨1, rfl⟩
    | cons a as => exact (hop a as hargs).mono (fun _ h => h) fun _ _ _ => ⟨1, rfl⟩
  | atLeastTwo f =>
    cases args with
    | nil => exact fun _ => ⟨2, rfl⟩
    | cons a as =>
      cases as with
      | nil => exact fun _ => ⟨2, rfl⟩
      | cons b as => exact (hop a b as hargs).mono (fun _ h => h) fun _ _ _ => ⟨2, rfl⟩

end Operation

namespace Primitive

open Operation Argument

variable {P : Value → Prop}

theorem operation_keeps (hP : Value.ListClosed P) (p : Primitive) : p.operation.Keeps P := by
  match p with
  | .cons => exact cons_keeps hP
  | .first => exact first_keeps hP
  | .rest => exact rest_keeps hP
  | .list => exact fun vs hvs => (hP.ofList hvs).1
  | .substring => exact fun _ _ _ _ => substring_isFlat.mono hP.simple fun _ h => h
  | .stringAppend => exact fun _ _ => flat_stringAppend.anyError.mono hP.simple fun _ h => h
  | .add => exact keeps_atLeastTwo hP fun _ _ _ => flat_accumulate Number.collapsed_add
  | .mul => exact keeps_atLeastTwo hP fun _ _ _ => flat_accumulate Number.collapsed_mul
  | .sub => exact keeps_atLeastOne hP fun _ _ => flat_difference
  | .div => exact keeps_atLeastTwo hP fun _ _ _ => flat_ratio
  | .numEq => exact keeps_atLeastTwo hP fun _ _ _ => flat_chain number_fair
  | .less | .greater | .lessEq | .greaterEq =>
    exact keeps_atLeastTwo hP fun _ _ _ => flat_chain real_fair
  | .stringEq | .stringLess => exact keeps_atLeastTwo hP fun _ _ _ => flat_chain string_fair
  | .max | .min => exact keeps_atLeastOne hP fun _ _ => flat_extremum
  | .expt => exact keeps_binary hP fun _ _ => flat_power
  | .quotient | .remainder | .modulo => exact keeps_binary hP fun _ _ => flat_integerDivision
  | .booleanEq => exact keeps_binary hP fun _ _ => flat_chain boolean_fair
  | .symbolEq => exact keeps_binary hP fun _ _ => flat_chain symbol_fair
  | .equal => exact keeps_binary hP fun _ _ => rfl
  | .add1 | .sub1 =>
    exact keeps_unary hP fun _ => flat_map number_fair fun _ => Number.collapsed_add _ _
  | .sqr => exact keeps_unary hP fun _ => flat_map number_fair fun _ => Number.collapsed_mul _ _
  | .sqrt => exact keeps_unary hP fun _ => flat_map number_fair Number.collapsed_sqrt
  | .exactToInexact => exact keeps_unary hP fun _ => flat_map number_fair Number.collapsed_toInexact
  | .magnitude => exact keeps_unary hP fun _ => flat_map number_fair Number.collapsed_magnitude
  | .realPart | .imagPart => exact keeps_unary hP fun _ => flat_map number_fair fun _ => trivial
  | .isZero | .isExact | .isInexact | .numberToString =>
    exact keeps_unary hP fun _ => flat_map number_fair fun _ => rfl
  | .abs | .floor | .ceiling | .round =>
    exact keeps_unary hP fun _ => flat_map real_fair fun _ => trivial
  | .isPositive | .isNegative => exact keeps_unary hP fun _ => flat_map real_fair fun _ => rfl
  | .isEven | .isOdd => exact keeps_unary hP fun _ => flat_map integer_fair fun _ => rfl
  | .numerator | .denominator => exact keeps_unary hP fun _ => flat_fractionPart
  | .inexactToExact => exact keeps_unary hP fun _ => flat_toExact
  | .not => exact keeps_unary hP fun _ => flat_map boolean_fair fun _ => rfl
  | .stringLength => exact keeps_unary hP fun _ => flat_map string_fair fun _ => trivial
  | .stringToSymbol | .stringUpcase | .stringDowncase =>
    exact keeps_unary hP fun _ => flat_map string_fair fun _ => rfl
  | .stringToNumber => exact keeps_unary hP fun _ => flat_stringToNumber
  | .symbolToString => exact keeps_unary hP fun _ => flat_map symbol_fair fun _ => rfl
  | .length => exact keeps_unary hP fun _ => length_flat
  | .isNumber | .isInteger | .isRational | .isReal | .isComplex | .isBoolean | .isString | .isSymbol
  | .isCons | .isEmpty | .isList => exact keeps_unary hP fun _ => rfl

/-- What a property of values that is closed under making and taking apart lists says of the
answers of primitives, and where faults about the number of arguments can come from. -/
theorem apply_keeps (hP : Value.ListClosed P) {p : Primitive} {args : List Value}
    (hargs : ∀ a ∈ args, P a) (hn : p.arity.admits args.length = true) :
    Yields P (fun e => e.isArity = true → ∃ m, p.arity = .atLeast m) (p.apply args) :=
  Operation.apply_keeps (operation_keeps hP p) hargs hn

/-- Whatever the number of arguments is, an answer has the property. -/
theorem apply_value (hP : Value.ListClosed P) {p : Primitive} {args : List Value}
    (hargs : ∀ a ∈ args, P a) : Yields P (fun _ => True) (p.apply args) := by
  by_cases hn : p.arity.admits args.length = true
  · exact (apply_keeps hP hargs hn).anyError
  · have hfixed : p.operation.arity.accepts args.length = false := by
      unfold Primitive.arity at hn
      cases hp : p.operation.arity with
      | exactly m => simpa [hp, Arity.admits, Arity.accepts] using hn
      | atLeast m => simp [hp, Arity.admits] at hn
    rw [Primitive.apply, Operation.apply_eq_arity hfixed]
    trivial

end Primitive
end BeginningStudent
