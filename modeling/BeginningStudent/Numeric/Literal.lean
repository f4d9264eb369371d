import BeginningStudent.Numeric.Number
import BeginningStudent.Numeric.Scale

/-!
# Number literals

The grammar of number literals and the numbers that they denote:

    number  := mark? (real imag | imag | real)
    mark    := '#e' | '#E' | '#i' | '#I'
    real    := special | sign? ureal
    imag    := (special | sign ureal?) 'i'
    ureal   := decimal | digits '/' digits | digits
    decimal := digits '.' digits? exp? | '.' digits exp? | digits exp
    exp     := ('e' | 'E') sign? digits
    special := '+inf.0' | '-inf.0' | '+nan.0' | '-nan.0'

A reader takes the first alternative that matches and returns the rest of the text; `number?`
accepts a text that is read to its end. Integers and fractions are exact unless marked inexact,
decimals and specials are floats unless marked exact.
-/

namespace BeginningStudent.Literal

inductive Mark where
  | exact
  | inexact
deriving DecidableEq, Repr

/-- The unsigned part of a real literal. A decimal is `digits · 10^(exponent - places)`. -/
inductive Magnitude where
  | integer (n : Nat)
  | fraction (n d : Nat)
  | decimal (digits places : Nat) (exponent : Int)
  | special (x : Binary64)
deriving DecidableEq

structure Signed where
  negative : Bool
  magnitude : Magnitude
deriving DecidableEq

/-- The parts of a number literal. -/
inductive Shape where
  | real (re : Signed)
  | complex (re im : Signed)
deriving DecidableEq

/-! ### Reading -/

abbrev Reader (α : Type) := List Char → Option (α × List Char)

def digitsValue (ds : List Char) : Nat := ds.foldl (fun n c => 10 * n + (c.toNat - '0'.toNat)) 0

def digits? : Reader (List Char) := fun s =>
  match s.span Char.isDigit with
  | ([], _) => none
  | (ds, rest) => some (ds, rest)

def sign? : Reader Bool
  | '+' :: rest => some (false, rest)
  | '-' :: rest => some (true, rest)
  | _ => none

def optionalSign (s : List Char) : Bool × List Char := (sign? s).getD (false, s)

def exponent? : Reader Int
  | c :: rest =>
    if c = 'e' ∨ c = 'E' then do
      let (negative, rest) := optionalSign rest
      let (ds, rest) ← digits? rest
      let n : Int := digitsValue ds
      return (if negative then -n else n, rest)
    else none
  | [] => none

def optionalExponent (s : List Char) : Int × List Char := (exponent? s).getD (0, s)

def wholeDecimal? : Reader Magnitude := fun s => do
  match ← digits? s with
  | (whole, '.' :: rest) =>
    let (places, rest) := rest.span Char.isDigit
    let (e, rest) := optionalExponent rest
    return (.decimal (digitsValue (whole ++ places)) places.length e, rest)
  | _ => none

def pointDecimal? : Reader Magnitude
  | '.' :: rest => do
    let (places, rest) ← digits? rest
    let (e, rest) := optionalExponent rest
    return (.decimal (digitsValue places) places.length e, rest)
  | _ => none

def exponentDecimal? : Reader Magnitude := fun s => do
  let (whole, rest) ← digits? s
  let (e, rest) ← exponent? rest
  return (.decimal (digitsValue whole) 0 e, rest)

def fraction? : Reader Magnitude := fun s => do
  match ← digits? s with
  | (n, '/' :: rest) =>
    let (d, rest) ← digits? rest
    return (.fraction (digitsValue n) (digitsValue d), rest)
  | _ => none

def integer? : Reader Magnitude := fun s => do
  let (ds, rest) ← digits? s
  return (.integer (digitsValue ds), rest)

def unsigned? : Reader Magnitude := fun s =>
  wholeDecimal? s <|> pointDecimal? s <|> exponentDecimal? s <|> fraction? s <|> integer? s

/-- Reads an infinity or NaN. Both spellings of NaN give the same value. -/
def special? : Reader Signed
  | '+' :: 'i' :: 'n' :: 'f' :: '.' :: '0' :: rest => some (found (.infinity false), rest)
  | '-' :: 'i' :: 'n' :: 'f' :: '.' :: '0' :: rest => some (found (.infinity true), rest)
  | '+' :: 'n' :: 'a' :: 'n' :: '.' :: '0' :: rest => some (found (.nan false), rest)
  | '-' :: 'n' :: 'a' :: 'n' :: '.' :: '0' :: rest => some (found (.nan false), rest)
  | _ => none
where
  found (x : Binary64) : Signed := ⟨false, .special x⟩

def real? : Reader Signed := fun s =>
  special? s <|> do
    let (negative, rest) := optionalSign s
    let (m, rest) ← unsigned? rest
    return (⟨negative, m⟩, rest)

/-- Reads a sign and an unsigned real, which is one if it is missing. -/
def signed? : Reader Signed := fun s => do
  let (negative, rest) ← sign? s
  let (m, rest) := (unsigned? rest).getD (.integer 1, rest)
  return (⟨negative, m⟩, rest)

def imaginary? : Reader Signed := fun s => do
  match ← special? s <|> signed? s with
  | (im, 'i' :: rest) => return (im, rest)
  | _ => none

def parts? : Reader Shape := fun s =>
  (do
    let (re, rest) ← real? s
    let (im, rest) ← imaginary? rest
    return (.complex re im, rest)) <|>
  (do
    let (im, rest) ← imaginary? s
    return (.complex ⟨false, .integer 0⟩ im, rest)) <|>
  (do
    let (re, rest) ← real? s
    return (.real re, rest))

def shape? (s : List Char) : Option Shape :=
  match parts? s with
  | some (shape, []) => some shape
  | _ => none

/-- Splits a mark from a literal. A text that begins with any other `#` is no literal. -/
def mark? : List Char → Option (Option Mark × List Char)
  | '#' :: c :: rest =>
    if c = 'e' ∨ c = 'E' then some (some .exact, rest)
    else if c = 'i' ∨ c = 'I' then some (some .inexact, rest)
    else none
  | ['#'] => none
  | s => some (none, s)

/-! ### Meaning -/

/-- The exponent that a decimal without a mark is read with: of a long exponent, only as many
leading digits as make it 65536 or more. The value is out of range either way, unless the decimal
has tens of thousands of digits. -/
def readExponent (n : Nat) : Nat :=
  (Decimal.natText n).foldl (fun e c => if e < 65536 then 10 * e + (c.toNat - '0'.toNat) else e) 0

def decimalFloat (digits places : Nat) (exponent : Int) : Binary64 :=
  let size : Int := readExponent exponent.natAbs
  .ofDecimal digits ((if exponent < 0 then -size else size) - places)

/-- The number that a decimal denotes under a mark, of its exact value, if it has one, and the float
nearest to it. Both are computed under every mark. -/
def decimalNumber (mark : Option Mark) (exactValue : Option Rat) (nearest : Binary64) :
    Except ArithmeticFault RealNumber :=
  match mark, exactValue with
  | some .exact, some r => .ok (.exact r)
  | some .exact, none => .error .noExactRepresentation
  | _, _ => .ok (.float nearest)

def Magnitude.denote (mark : Option Mark) : Magnitude → Except ArithmeticFault RealNumber
  | .integer n => .ok (if mark = some .inexact then .inexact n else .exact n)
  | .fraction n d =>
    if d = 0 then .error .divideByZero
    else .ok (if mark = some .inexact then .inexact (mkRat n d) else .exact (mkRat n d))
  | .decimal digits places exponent =>
    decimalNumber mark ((Scale.of? places exponent).map (·.apply digits))
      (decimalFloat digits places exponent)
  | .special x =>
    if mark = some .exact then .error .noExactRepresentation else .ok (.float x)

def Signed.denote (mark : Option Mark) (s : Signed) : Except ArithmeticFault RealNumber := do
  let r ← s.magnitude.denote mark
  return if s.negative then r.negate else r

/-- The number that the parts of a literal denote. A fault of the real part comes first. -/
def Shape.denote (mark : Option Mark) : Shape → Except ArithmeticFault Number
  | .real re => .real <$> re.denote mark
  | .complex re im => do return .ofParts (← re.denote mark) (← im.denote mark)

def number? (s : List Char) : Option (Except ArithmeticFault Number) := do
  let (mark, body) ← mark? s
  let shape ← shape? body
  return shape.denote mark

example : (number? "-1/2+.5i".toList).map (·.map Number.text) = some (.ok "-0.5+0.5i".toList) := by
  rfl
example : (number? "1st".toList).isNone ∧ (number? "-".toList).isNone ∧
    (number? "".toList).isNone := by
  decide +kernel
example : (number? "1e5000".toList).map (·.map Number.text) = some (.ok "#i+inf.0".toList) := by
  rfl
example : readExponent 655379 = 65537 ∧ readExponent 655360 = 65536 := by decide +kernel

end BeginningStudent.Literal
