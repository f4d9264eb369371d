import BeginningStudent.Primitive.Numbers
import BeginningStudent.Primitive.Data

/-!
# Operations of primitives

What each primitive does. An operation is a function of as many values as it needs, so no argument
can be missing when it runs: `Operation.apply` compares the arguments with the shape of the
operation and faults when they do not fit (`Operation.apply_eq_arity`).
-/

namespace BeginningStudent

inductive Operation where
  | unary (f : Value → Except Fault Value)
  | binary (f : Value → Value → Except Fault Value)
  | atLeastZero (f : List Value → Except Fault Value)
  | atLeastOne (f : Value → List Value → Except Fault Value)
  | atLeastTwo (f : Value → Value → List Value → Except Fault Value)

namespace Operation

def arity : Operation → Arity
  | .unary _ => .exactly 1
  | .binary _ => .exactly 2
  | .atLeastZero _ => .atLeast 0
  | .atLeastOne _ => .atLeast 1
  | .atLeastTwo _ => .atLeast 2

def apply (op : Operation) (args : List Value) : Except Fault Value :=
  match op, args with
  | .unary f, [a] => f a
  | .binary f, [a, b] => f a b
  | .atLeastZero f, args => f args
  | .atLeastOne f, a :: args => f a args
  | .atLeastTwo f, a :: b :: args => f a b args
  | op, args => .error (.arity op.arity args.length)

theorem apply_eq_arity {op : Operation} {args : List Value}
    (h : op.arity.accepts args.length = false) :
    op.apply args = .error (.arity op.arity args.length) := by
  unfold apply
  split <;> simp_all [arity, Arity.accepts]

end Operation

namespace Primitive

def operation : Primitive → Operation
  | .add => .atLeastTwo Operation.sum
  | .sub => .atLeastOne Operation.difference
  | .mul => .atLeastTwo Operation.product
  | .div => .atLeastTwo Operation.ratio
  | .numEq => .atLeastTwo Operation.numEq
  | .less => .atLeastTwo (Operation.ordered (· == .lt))
  | .greater => .atLeastTwo (Operation.ordered (· == .gt))
  | .lessEq => .atLeastTwo (Operation.ordered (· != .gt))
  | .greaterEq => .atLeastTwo (Operation.ordered (· != .lt))
  | .add1 => .unary (Operation.onNumber (·.add (.ofInt 1)))
  | .sub1 => .unary (Operation.onNumber (·.sub (.ofInt 1)))
  | .abs => .unary (Operation.onReal RealNumber.abs)
  | .sqr => .unary (Operation.onNumber fun z => z.mul z)
  | .sqrt => .unary (Operation.onNumber Number.sqrt)
  | .expt => .binary Operation.power
  | .max => .atLeastOne (Operation.extremum .gt)
  | .min => .atLeastOne (Operation.extremum .lt)
  | .quotient => .binary (Operation.integerDivision RealNumber.quotient)
  | .remainder => .binary (Operation.integerDivision RealNumber.remainder)
  | .modulo => .binary (Operation.integerDivision RealNumber.modulo)
  | .floor => .unary (Operation.onReal RealNumber.floor)
  | .ceiling => .unary (Operation.onReal RealNumber.ceiling)
  | .round => .unary (Operation.onReal RealNumber.round)
  | .numerator => .unary (Operation.fractionPart RealNumber.numerator)
  | .denominator => .unary (Operation.fractionPart RealNumber.denominator)
  | .exactToInexact => .unary (Operation.onNumber Number.toInexact)
  | .inexactToExact => .unary Operation.toExact
  | .realPart => .unary (Operation.onNumber fun z => .real z.re)
  | .imagPart => .unary (Operation.onNumber fun z => .real z.im)
  | .magnitude => .unary (Operation.onNumber Number.magnitude)
  | .isZero => .unary (Operation.testNumber Number.isZero)
  | .isPositive => .unary (Operation.testReal Operation.isPositive)
  | .isNegative => .unary (Operation.testReal RealNumber.isNegative)
  | .isEven => .unary (Operation.testInteger (· % 2 == 0))
  | .isOdd => .unary (Operation.testInteger (· % 2 != 0))
  | .isNumber => .unary (Operation.passes Argument.number)
  | .isInteger => .unary (Operation.passes Argument.integer)
  | .isRational => .unary (Operation.passes Argument.rational)
  | .isReal => .unary (Operation.passes Argument.real)
  | .isComplex => .unary (Operation.passes Argument.number)
  | .isExact => .unary (Operation.testNumber Number.isExact)
  | .isInexact => .unary (Operation.testNumber (!·.isExact))
  | .numberToString => .unary Operation.numberToString
  | .not => .unary Operation.negation
  | .isBoolean => .unary (Operation.passes Argument.boolean)
  | .booleanEq => .binary Operation.booleanEq
  | .isString => .unary (Operation.passes Argument.string)
  | .stringLength => .unary Operation.stringLength
  | .stringAppend => .atLeastZero Operation.stringAppend
  | .stringEq => .atLeastTwo Operation.stringEq
  | .stringLess => .atLeastTwo Operation.stringLess
  | .substring => .atLeastTwo Operation.substring
  | .stringToNumber => .unary Operation.stringToNumber
  | .stringToSymbol => .unary Operation.stringToSymbol
  | .symbolToString => .unary Operation.symbolToString
  | .isSymbol => .unary (Operation.passes Argument.symbol)
  | .symbolEq => .binary Operation.symbolEq
  | .stringUpcase => .unary (Operation.onCharacters Text.upcase)
  | .stringDowncase => .unary (Operation.onCharacters Text.downcase)
  | .cons => .binary Operation.cons
  | .first => .unary Operation.first
  | .rest => .unary Operation.rest
  | .isEmpty => .unary Operation.isEmpty
  | .isCons => .unary (Operation.passes Argument.nonEmptyList)
  | .list => .atLeastZero Operation.list
  | .isList => .unary Operation.isList
  | .length => .unary Operation.length
  | .equal => .binary Operation.equal

def arity (p : Primitive) : Arity := p.operation.arity

def apply (p : Primitive) (args : List Value) : Except Fault Value := p.operation.apply args

end Primitive
end BeginningStudent
