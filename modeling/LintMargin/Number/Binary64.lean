/-!
# 64-bit floating point, finite values

A value is a sign, a mantissa below 2^53 and a power of two not below 2^-1074; `ofRatio` rounds a
ratio to the nearest value, to an even mantissa when two are equally near. Products and quotients are
the rounded exact ones, so everything here is arithmetic on naturals.
-/

namespace LintMargin.Number

/-- The magnitude is `mantissa * 2 ^ exponent`; a mantissa below 2^52 comes only with the least
exponent, which makes the representation of every magnitude unique. -/
structure Binary64 where
  negative : Bool
  mantissa : Nat
  exponent : Int
deriving DecidableEq, Repr

namespace Binary64

def leastExponent : Int := -1074

def greatestExponent : Int := 971

def zero (negative : Bool) : Binary64 := ⟨negative, 0, leastExponent⟩

/-- `num / den` in units of `2 ^ e`, as a ratio. -/
def scale (num den : Nat) (e : Int) : Nat × Nat :=
  if 0 ≤ e then (num, den * Nat.pow 2 e.toNat) else (num * Nat.pow 2 (-e).toNat, den)

/-- The exponent at which the mantissa of `num / den` has 53 bits, or the least one. -/
def exponentFor (num den : Nat) : Int :=
  let guess : Int := (num.log2 : Int) - (den.log2 : Int) - 53
  let (n, d) := scale num den guess
  max leastExponent (if n / d < Nat.pow 2 53 then guess else guess + 1)

/-- The natural nearest to `num / den`, an even one on a tie. -/
def roundHalfEven (num den : Nat) : Nat :=
  let q := num / den
  let twice := 2 * (num % den)
  if twice < den then q else if den < twice then q + 1 else q + q % 2

/-- The nearest value to `num / den`, or `none` if that is beyond the greatest. -/
def ofRatio (negative : Bool) (num den : Nat) : Option Binary64 :=
  if num = 0 then some (zero negative)
  else
    let e := exponentFor num den
    let (n, d) := scale num den e
    let m := roundHalfEven n d
    let (m, e) := if m = Nat.pow 2 53 then (Nat.pow 2 52, e + 1) else (m, e)
    if greatestExponent < e then none else some ⟨negative, m, e⟩

/-- The magnitude as a ratio of naturals. -/
def toRatio (x : Binary64) : Nat × Nat :=
  if 0 ≤ x.exponent then (x.mantissa * Nat.pow 2 x.exponent.toNat, 1)
  else (x.mantissa, Nat.pow 2 (-x.exponent).toNat)

/-- The product's magnitude, with the first factor's sign. -/
def mulMagnitude (x y : Binary64) : Option Binary64 :=
  let (n, d) := x.toRatio
  let (n', d') := y.toRatio
  ofRatio x.negative (n * n') (d * d')

/-- The quotient's magnitude, with the dividend's sign. -/
def divMagnitude (x y : Binary64) : Option Binary64 :=
  let (n, d) := x.toRatio
  let (n', d') := y.toRatio
  ofRatio x.negative (n * d') (d * n')

end Binary64

end LintMargin.Number
