/-!
# Digits

Reading ASCII digits as numbers, and unsigned words written in decimal.
-/

namespace LintMargin.Text

def digitValue? (c : Char) : Option Nat :=
  if c.isDigit then some (c.toNat - '0'.toNat) else none

def hexValue? (c : Char) : Option Nat :=
  if c.isDigit then some (c.toNat - '0'.toNat)
  else if 'a' ≤ c ∧ c ≤ 'f' then some (c.toNat - 'a'.toNat + 10)
  else if 'A' ≤ c ∧ c ≤ 'F' then some (c.toNat - 'A'.toNat + 10)
  else none

/-- The number whose digits, in the given base, are read from left to right. -/
def ofDigits (base : Nat) (digits : List Nat) : Nat :=
  digits.foldl (fun n d => base * n + d) 0

/-- A word in decimal: at most one `+`, then one or more digits, with no regard to leading zeros. -/
def readWord32 (cs : List Char) : Option UInt32 :=
  let digits := match cs with
    | '+' :: rest => rest
    | _ => cs
  if digits.isEmpty then none
  else do
    let n := ofDigits 10 (← digits.mapM digitValue?)
    if n < UInt32.size then some (UInt32.ofNat n) else none

end LintMargin.Text
