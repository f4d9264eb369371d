import BeginningStudent.Numeric.Binary64.Arithmetic

/-!
# Complex floats

Square root and power of complex numbers with float parts, by way of the polar form.
-/

namespace BeginningStudent

structure ComplexFloat where
  re : Binary64
  im : Binary64
deriving DecidableEq

namespace ComplexFloat

open Binary64

def ofPolar (r angle : Binary64) : ComplexFloat := ⟨r * cos angle, r * sin angle⟩

/-- The principal square root. Numbers on the axes are treated apart, so that their roots are as
exact as the roots of reals. On the real axis only the sign bit of the real part decides, so two
NaNs may have different roots. -/
def sqrt (z : ComplexFloat) : ComplexFloat :=
  if isZero z.im then
    if signBit z.re then
      let im := Binary64.sqrt (-z.re)
      ⟨zero false, if signBit z.im then -im else im⟩
    else ⟨Binary64.sqrt z.re, z.im⟩
  else if isZero z.re then
    let x := Binary64.sqrt (abs z.im / two)
    ⟨x, if signBit z.im then -x else x⟩
  else ofPolar (Binary64.sqrt (hypot z.re z.im)) (angle z.re z.im / two)

def log (z : ComplexFloat) : ComplexFloat := ⟨Binary64.log (hypot z.re z.im), angle z.re z.im⟩

def mul (z w : ComplexFloat) : ComplexFloat :=
  ⟨z.re * w.re - z.im * w.im, z.re * w.im + z.im * w.re⟩

/-- The exponential. An infinite real part is answered without the angle where the angle has no
direction. -/
def exp (z : ComplexFloat) : ComplexFloat :=
  if z.re = infinity true && !isFinite z.im then ⟨zero false, zero false⟩
  else if z.re = infinity false && (isZero z.im || !isFinite z.im) then
    ⟨z.re, if isInfinite z.im then nan false else z.im⟩
  else if isNaN z.re && isZero z.im then z
  else ofPolar (Binary64.exp z.re) z.im

def pow (z w : ComplexFloat) : ComplexFloat :=
  if isZero w.re && isZero w.im then ⟨one, zero false⟩ else (w.mul z.log).exp

example : sqrt ⟨ofInt (-4), zero true⟩ = ⟨zero false, ofInt (-2)⟩ := by decide +kernel
example : sqrt ⟨nan true, zero false⟩ = ⟨zero false, nan false⟩ := by decide +kernel

end ComplexFloat
end BeginningStudent
