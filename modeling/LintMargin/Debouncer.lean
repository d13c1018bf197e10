import LintMargin.SortedMap

/-!
# Debouncing

A debouncer holds back the work for a key until the key has been quiet for the whole delay. Times and
delays are milliseconds; deadlines are their exact sums. Time comes in from outside and need not grow.
-/

namespace LintMargin

universe u

structure Debouncer (κ : Type u) [Ranked κ] where
  delay : Nat
  deadlines : SortedMap κ Nat

namespace Debouncer

variable {κ : Type u} [Ranked κ]

def ofDelay (delay : Nat) : Debouncer κ := ⟨delay, ∅⟩

/-- Puts the work for a key off until the delay has passed from now on. -/
def schedule (d : Debouncer κ) (key : κ) (now : Nat) : Debouncer κ :=
  { d with deadlines := d.deadlines.insert key (now + d.delay) }

/-- Drops the work for a key. -/
def cancel (d : Debouncer κ) (key : κ) : Debouncer κ :=
  { d with deadlines := d.deadlines.erase key }

def isPending (d : Debouncer κ) (key : κ) : Bool := d.deadlines.contains key

/-- The keys whose deadline has come, in ascending order, and the debouncer without them. -/
def takeDue (d : Debouncer κ) (now : Nat) : List κ × Debouncer κ :=
  ((d.deadlines.filter fun _ deadline => deadline ≤ now).keys,
    { d with deadlines := d.deadlines.filter fun _ deadline => now < deadline })

/-- The earliest deadline. -/
def nextDeadline (d : Debouncer κ) : Option Nat := d.deadlines.values.min?

/-- Changes the delay of what is scheduled from now on. -/
def setDelay (d : Debouncer κ) (delay : Nat) : Debouncer κ := { d with delay }

end Debouncer

end LintMargin
