import BeginningStudent.Text.LetterCase

/-!
# Text

Blank characters are those with the Unicode property `White_Space`. They separate the tokens of a
program. Zero-width marks (`U+200B`, `U+FEFF`) do not have the property, so they are parts of names.

Letter case follows the full case mappings of Unicode. A letter may map to several characters (`ß`
to `SS`), and a capital sigma maps to `ς` where a word ends and to `σ` elsewhere.
-/

namespace BeginningStudent.Text

/-! ### Blank characters -/

def blankRanges : List (Nat × Nat) :=
  [(0x09, 0x0D), (0x20, 0x20), (0x85, 0x85), (0xA0, 0xA0), (0x1680, 0x1680), (0x2000, 0x200A),
    (0x2028, 0x2029), (0x202F, 0x202F), (0x205F, 0x205F), (0x3000, 0x3000)]

def inRanges (ranges : List (Nat × Nat)) (n : Nat) : Bool :=
  ranges.any fun r => r.1 ≤ n && n ≤ r.2

/-- Has the character the property `White_Space`? -/
def isBlank (c : Char) : Bool := inRanges blankRanges c.toNat

example : isBlank '\u200b' = false ∧ isBlank '\ufeff' = false ∧ isBlank '\u3000' = true := by
  decide

/-! ### Letter case -/

/-- The code point that a table of shifts gives for `n`, if an entry covers it. -/
def shifted? (shifts : List (Nat × Nat × Nat × Int)) (n : Nat) : Option Nat :=
  (shifts.find? fun (first, last, step, _) => first ≤ n && n ≤ last && (n - first) % step == 0).map
    fun (_, _, _, shift) => (n + shift).toNat

def mapCase (shifts : List (Nat × Nat × Nat × Int)) (expansions : List (Nat × List Nat))
    (c : Char) : List Char :=
  match expansions.lookup c.toNat with
  | some points => points.map Char.ofNat
  | none => [((shifted? shifts c.toNat).map Char.ofNat).getD c]

def upperChar (c : Char) : List Char := mapCase upperShifts upperExpansions c

def lowerChar (c : Char) : List Char := mapCase lowerShifts lowerExpansions c

/-- Does the word go on in this direction: is the first character that is not ignorable cased? -/
def wordGoesOn (cs : List Char) : Bool :=
  match cs.dropWhile fun c => inRanges ignorableRanges c.toNat with
  | [] => false
  | c :: _ => inRanges casedRanges c.toNat

def upcase (cs : List Char) : List Char := cs.flatMap upperChar

/-- The lower case of a text that follows `before`, which is given from its end. -/
def downcaseAfter (before : List Char) : List Char → List Char
  | [] => []
  | c :: rest =>
    (if c = 'Σ' then [if wordGoesOn before && !wordGoesOn rest then 'ς' else 'σ']
      else lowerChar c) ++ downcaseAfter (c :: before) rest

def downcase (cs : List Char) : List Char := downcaseAfter [] cs

example : upcase "straße".toList = "STRASSE".toList := by decide +kernel
example : downcase "ΟΔΟΣ Σ".toList = "οδος σ".toList := by decide +kernel
example : downcase "İ".toList = ['i', '\u0307'] := by decide +kernel

end BeginningStudent.Text
