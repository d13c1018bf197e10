/-!
# Shapes of octet strings

A `Shape` is a regular set of octet strings, built from classes of octets, runs of them, sequence and
choice. A text has a place before each octet and one at its end, and a list of marks tells which places
have been reached. Each part of a shape carries the marks from its starts to its ends and is visited
once, however shapes are nested; a text has the shape if the mark at its start comes to its end.
-/

namespace LintMargin.Ignore

/-- The octets in some inclusive ranges, or all others. -/
structure OctetClass where
  negated : Bool
  ranges : List (UInt8 × UInt8)
deriving DecidableEq

namespace OctetClass

def contains (k : OctetClass) (b : UInt8) : Bool :=
  k.ranges.any (fun r => r.1 ≤ b && b ≤ r.2) != k.negated

def any : OctetClass := ⟨true, []⟩

def slash : UInt8 := 0x2f

def notSlash : OctetClass := ⟨true, [(slash, slash)]⟩

def only (b : UInt8) : OctetClass := ⟨false, [(b, b)]⟩

end OctetClass

inductive Shape where
  | nothing
  | empty
  | one (k : OctetClass)
  | run (k : OctetClass)
  | seq (a b : Shape)
  | either (a b : Shape)
deriving DecidableEq

/-- For each place of a text whether it has been reached. -/
abbrev Marks := List Bool

namespace Marks

/-- Only the place at the start. -/
def start (octets : List UInt8) : Marks := true :: octets.map fun _ => false

/-- Every mark moves over one octet of the class. -/
def advance (k : OctetClass) (octets : List UInt8) (marks : Marks) : Marks :=
  false :: List.zipWith (fun b m => m && k.contains b) octets marks

/-- Every mark stays and also moves over any number of octets of the class. `carried` tells that a mark
comes in from the left. -/
def spread (k : OctetClass) (carried : Bool) : List UInt8 → Marks → Marks
  | _, [] => []
  | [], m :: _ => [m || carried]
  | b :: octets, m :: marks => (m || carried) :: spread k ((m || carried) && k.contains b) octets marks

/-- The places reached by either. -/
def union (a b : Marks) : Marks := List.zipWith (· || ·) a b

end Marks

namespace Shape

/-- Carries marks over a shape. -/
def carry (octets : List UInt8) : Shape → Marks → Marks
  | .nothing, marks => marks.map fun _ => false
  | .empty, marks => marks
  | .one k, marks => marks.advance k octets
  | .run k, marks => marks.spread k false octets
  | .seq a b, marks => b.carry octets (a.carry octets marks)
  | .either a b, marks => (a.carry octets marks).union (b.carry octets marks)

/-- Whether a text has the shape. -/
def accepts (s : Shape) (octets : List UInt8) : Bool :=
  (s.carry octets (.start octets)).getLastD false

/-- One given string. -/
def literal (octets : List UInt8) : Shape :=
  octets.foldr (fun b s => .seq (.one (.only b)) s) .empty

end Shape

end LintMargin.Ignore
