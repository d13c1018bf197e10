import LintMargin.Number.Binary64
import LintMargin.Text.Digits

/-!
# Decimal literals

A literal without point and exponent is an integer if 64 bits hold it: from -2^63, written with a sign,
to 2^64 - 1. Every other literal is a float. Its digits are gathered into a significand for as long as
that stays below 2^64, and the significand is then scaled by a power of ten, with a rounding at each
step.
-/

namespace LintMargin.Number

/-- A number as JSON tells them apart. -/
inductive Numeral where
  | int (value : Int)
  | float (value : Binary64)
deriving DecidableEq, Repr

/-- The parts of a decimal literal. The exponent comes with its own sign, `true` for minus. -/
structure Literal where
  negative : Bool
  whole : List Nat
  fraction : List Nat
  exponent : Option (Bool × List Nat)
deriving DecidableEq, Repr

namespace Literal

/-- Appends digits to a significand below 2^64, up to the first that does not fit. -/
def gather (significand : Nat) : List Nat → Nat × List Nat
  | [] => (significand, [])
  | d :: ds =>
    if 10 * significand + d < Nat.pow 2 64 then gather (10 * significand + d) ds
    else (significand, d :: ds)

/-- The float nearest to a power of ten. -/
def powerOfTen (k : Nat) : Binary64 :=
  (Binary64.ofRatio false (Nat.pow 10 k) 1).getD (.zero false)

/-- The greatest power of ten that is a float. -/
def greatestPower : Nat := 308

/-- Divides by the greatest power of ten as many times as asked, or until nothing is left. -/
def lower (x : Binary64) : Nat → Option Binary64
  | 0 => some x
  | times + 1 =>
    if x.mantissa = 0 then some x
    else (x.divMagnitude (powerOfTen greatestPower)).bind (lower · times)

/-- `x * 10 ^ e`, in steps of at most 10^308; `none` if it is beyond the greatest float. -/
def scaleByTen (x : Binary64) (e : Int) : Option Binary64 :=
  if 0 ≤ e then
    if e ≤ greatestPower then x.mulMagnitude (powerOfTen e.toNat)
    else if x.mantissa = 0 then some x
    else none
  else
    let down := (-e).toNat
    let times := (down - 1) / greatestPower
    (lower x times).bind (·.divMagnitude (powerOfTen (down - greatestPower * times)))

/-- The greatest exponent that is followed; a greater one makes the value zero or too great. -/
def greatestExponent : Nat := Nat.pow 2 31 - 1

/-- The float that a literal stands for, or `none` if it is too great. -/
def toFloat (l : Literal) : Option Binary64 := do
  let (upToPoint, dropped) := gather 0 l.whole
  let (significand, unused) := gather upToPoint l.fraction
  let scale : Int := dropped.length - (l.fraction.length - unused.length : Nat)
  let x ← Binary64.ofRatio l.negative significand 1
  match l.exponent with
  | none => scaleByTen x scale
  | some (down, digits) =>
    let e := Text.ofDigits 10 digits
    if greatestExponent < e then
      if significand ≠ 0 ∧ !down then none else some (.zero l.negative)
    else scaleByTen x (if down then scale - e else scale + e)

/-- The number that a literal stands for, or `none` if it is too great. -/
def numeral? (l : Literal) : Option Numeral :=
  let n := Text.ofDigits 10 l.whole
  if l.fraction.isEmpty ∧ l.exponent.isNone then
    if !l.negative ∧ n < Nat.pow 2 64 then some (.int n)
    else if l.negative ∧ 0 < n ∧ n ≤ Nat.pow 2 63 then some (.int (-n))
    else l.toFloat.map .float
  else l.toFloat.map .float

end Literal

end LintMargin.Number
