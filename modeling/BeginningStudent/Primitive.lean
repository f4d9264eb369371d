/-!
# Primitives

The built-in procedures and their names. What each of them does is its `operation`, in
`BeginningStudent.Primitive.Operation`.
-/

namespace BeginningStudent

inductive Primitive where
  | add
  | sub
  | mul
  | div
  | numEq
  | less
  | greater
  | lessEq
  | greaterEq
  | add1
  | sub1
  | abs
  | sqr
  | sqrt
  | expt
  | max
  | min
  | quotient
  | remainder
  | modulo
  | floor
  | ceiling
  | round
  | numerator
  | denominator
  | exactToInexact
  | inexactToExact
  | realPart
  | imagPart
  | magnitude
  | isZero
  | isPositive
  | isNegative
  | isEven
  | isOdd
  | isNumber
  | isInteger
  | isRational
  | isReal
  | isComplex
  | isExact
  | isInexact
  | numberToString
  | not
  | isBoolean
  | booleanEq
  | isString
  | stringLength
  | stringAppend
  | stringEq
  | stringLess
  | substring
  | stringToNumber
  | stringToSymbol
  | symbolToString
  | isSymbol
  | symbolEq
  | stringUpcase
  | stringDowncase
  | cons
  | first
  | rest
  | isEmpty
  | isCons
  | list
  | isList
  | length
  | equal
deriving DecidableEq, Repr

namespace Primitive

def name : Primitive → String
  | .add => "+"
  | .sub => "-"
  | .mul => "*"
  | .div => "/"
  | .numEq => "="
  | .less => "<"
  | .greater => ">"
  | .lessEq => "<="
  | .greaterEq => ">="
  | .add1 => "add1"
  | .sub1 => "sub1"
  | .abs => "abs"
  | .sqr => "sqr"
  | .sqrt => "sqrt"
  | .expt => "expt"
  | .max => "max"
  | .min => "min"
  | .quotient => "quotient"
  | .remainder => "remainder"
  | .modulo => "modulo"
  | .floor => "floor"
  | .ceiling => "ceiling"
  | .round => "round"
  | .numerator => "numerator"
  | .denominator => "denominator"
  | .exactToInexact => "exact->inexact"
  | .inexactToExact => "inexact->exact"
  | .realPart => "real-part"
  | .imagPart => "imag-part"
  | .magnitude => "magnitude"
  | .isZero => "zero?"
  | .isPositive => "positive?"
  | .isNegative => "negative?"
  | .isEven => "even?"
  | .isOdd => "odd?"
  | .isNumber => "number?"
  | .isInteger => "integer?"
  | .isRational => "rational?"
  | .isReal => "real?"
  | .isComplex => "complex?"
  | .isExact => "exact?"
  | .isInexact => "inexact?"
  | .numberToString => "number->string"
  | .not => "not"
  | .isBoolean => "boolean?"
  | .booleanEq => "boolean=?"
  | .isString => "string?"
  | .stringLength => "string-length"
  | .stringAppend => "string-append"
  | .stringEq => "string=?"
  | .stringLess => "string<?"
  | .substring => "substring"
  | .stringToNumber => "string->number"
  | .stringToSymbol => "string->symbol"
  | .symbolToString => "symbol->string"
  | .isSymbol => "symbol?"
  | .symbolEq => "symbol=?"
  | .stringUpcase => "string-upcase"
  | .stringDowncase => "string-downcase"
  | .cons => "cons"
  | .first => "first"
  | .rest => "rest"
  | .isEmpty => "empty?"
  | .isCons => "cons?"
  | .list => "list"
  | .isList => "list?"
  | .length => "length"
  | .equal => "equal?"

def all : List Primitive :=
  [.add, .sub, .mul, .div, .numEq, .less, .greater, .lessEq, .greaterEq, .add1, .sub1, .abs,
    .sqr, .sqrt, .expt, .max, .min, .quotient, .remainder, .modulo, .floor, .ceiling, .round,
    .numerator, .denominator, .exactToInexact, .inexactToExact, .realPart, .imagPart, .magnitude,
    .isZero, .isPositive, .isNegative, .isEven, .isOdd, .isNumber, .isInteger, .isRational,
    .isReal, .isComplex, .isExact, .isInexact, .numberToString, .not, .isBoolean, .booleanEq,
    .isString, .stringLength, .stringAppend, .stringEq, .stringLess, .substring, .stringToNumber,
    .stringToSymbol, .symbolToString, .isSymbol, .symbolEq, .stringUpcase, .stringDowncase,
    .cons, .first, .rest, .isEmpty, .isCons, .list, .isList, .length, .equal]

def ofName? (s : String) : Option Primitive := all.find? fun p => p.name == s

theorem mem_all (p : Primitive) : p ∈ all := by cases p <;> decide +kernel

theorem ofName?_name (p : Primitive) : ofName? p.name = some p :=
  (by decide +kernel : ∀ p ∈ all, ofName? p.name = some p) p (mem_all p)

end Primitive
end BeginningStudent
