import LintMargin.Number.Decimal

/-!
# The shortest decimal of a float

Of all decimals that round to a given value, the ones with the fewest digits are found, and of those
the one nearest to the value. The search takes one digit after another: with `n` digits the decimals
form a grid, and only the two neighbours of the value on it can be hits.
-/

namespace LintMargin.Number

/-- `digits * 10 ^ exponent`. -/
structure Decimal where
  digits : Nat
  exponent : Int
deriving DecidableEq, Repr

namespace Binary64

def countDigits (n : Nat) : Nat := (Nat.toDigits 10 n).length

/-- The exponent of the greatest power of ten that is not above `num / den`. -/
def decimalExponent (num den : Nat) : Int :=
  if den ≤ num then countDigits (num / den) - 1
  else
    let k := countDigits (den / num)
    if den ≤ num * Nat.pow 10 (k - 1) then -((k - 1 : Nat) : Int) else -(k : Int)

/-- The ratios between which everything rounds to the value, and whether the bounds do too.
All share the denominator of `scale`. -/
structure Interval where
  low : Nat
  value : Nat
  high : Nat
  den : Nat
  closed : Bool

/-- Bounds half way to the neighbours; below a power of two the neighbour is half as far. -/
def interval (x : Binary64) : Interval :=
  let below := if x.mantissa = Nat.pow 2 52 ∧ x.exponent ≠ leastExponent then 1 else 2
  let (_, den) := scale 1 1 (-(x.exponent - 2))
  let unit := if 0 ≤ x.exponent - 2 then Nat.pow 2 (x.exponent - 2).toNat else 1
  let den := if 0 ≤ x.exponent - 2 then 1 else den
  { low := (4 * x.mantissa - below) * unit
    value := 4 * x.mantissa * unit
    high := (4 * x.mantissa + 2) * unit
    den
    closed := x.mantissa % 2 = 0 }

/-- Whether `n / d` rounds to the value. -/
def Interval.holds (i : Interval) (n d : Nat) : Bool :=
  if i.closed then i.low * d ≤ n * i.den && n * i.den ≤ i.high * d
  else i.low * d < n * i.den && n * i.den < i.high * d

/-- A neighbour of the value on the grid of `10 ^ e` that rounds to it, the nearer one if both do,
and on a tie the even one. -/
def Interval.hit? (i : Interval) (e : Int) : Option Nat :=
  let (up, down) := if 0 ≤ e then (Nat.pow 10 e.toNat, 1) else (1, Nat.pow 10 (-e).toNat)
  let floor := i.value * down / (i.den * up)
  let rest := i.value * down % (i.den * up)
  let lower := i.holds (floor * up) down
  let upper := i.holds ((floor + 1) * up) down
  if lower && upper then
    if 2 * rest < i.den * up then some floor
    else if i.den * up < 2 * rest then some (floor + 1)
    else some (floor + floor % 2)
  else if lower then some floor
  else if upper then some (floor + 1)
  else none

/-- Tries grids of 1, 2, … digits; 17 always suffice. -/
def search (i : Interval) (lead : Int) : Nat → Nat → Decimal
  | _, 0 => ⟨0, 0⟩
  | n, tries + 1 =>
    match i.hit? (lead - n + 1) with
    | some d => ⟨d, lead - n + 1⟩
    | none => search i lead (n + 1) tries

/-- The shortest decimal of a magnitude that is not zero. -/
def shortest (x : Binary64) : Decimal :=
  let i := x.interval
  search i (decimalExponent i.value i.den) 1 17

end Binary64

/-- How floats are written: positional where the leading digit stands for a power of ten in the
range, with an exponent elsewhere. -/
structure FloatFormat where
  leastPositional : Int
  beyondPositional : Int
  plus : List Char

namespace FloatFormat

def zeros (n : Nat) : List Char := List.replicate n '0'

/-- Positional notation with at least one decimal, of digits whose first stands for `10 ^ lead`. -/
def positional (digits : List Char) (lead : Int) : List Char :=
  if lead < 0 then '0' :: '.' :: zeros ((-lead).toNat - 1) ++ digits
  else
    let places := lead.toNat + 1
    if digits.length ≤ places then digits ++ zeros (places - digits.length) ++ ['.', '0']
    else digits.take places ++ '.' :: digits.drop places

/-- One digit before the point and, if there are more, the others after it. -/
def scientific (format : FloatFormat) (digits : List Char) (lead : Int) : List Char :=
  let mantissa := match digits with
    | first :: next :: rest => first :: '.' :: next :: rest
    | few => few
  let sign := if lead < 0 then ['-'] else format.plus
  mantissa ++ 'e' :: sign ++ Nat.toDigits 10 lead.natAbs

def render (format : FloatFormat) (x : Binary64) : List Char :=
  let sign := if x.negative then ['-'] else []
  if x.mantissa = 0 then sign ++ ['0', '.', '0']
  else
    let d := x.shortest
    let written := Nat.toDigits 10 d.digits
    let lead := d.exponent + (written.length - 1 : Nat)
    let digits := (written.reverse.dropWhile (· = '0')).reverse
    sign ++
      if format.leastPositional ≤ lead ∧ lead < format.beyondPositional then positional digits lead
      else format.scientific digits lead

end FloatFormat

end LintMargin.Number
