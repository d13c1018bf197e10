import LintMargin.SortedMap

/-!
# Issues

What a linter has to say about one spot of a document. Linters count lines and characters from 1 and
use line 0 for what belongs to no line; rows and columns of a document count from 0.
-/

namespace LintMargin

/-- An open document. -/
structure DocumentId where
  number : UInt64
deriving DecidableEq, Inhabited

instance : Ranked DocumentId where
  rank d := d.number.toNat
  rank_injective {a b} h := by
    cases a
    cases b
    exact congrArg _ (UInt64.toNat_inj.mp h)

/-- A line of a document, the first being 0. -/
abbrev Row := UInt32

structure Position where
  row : Row
  column : UInt32
deriving DecidableEq, Inhabited

/-- The difference, or zero where it would be negative. -/
def monus (a b : UInt32) : UInt32 := if b ≤ a then a - b else 0

theorem toNat_monus (a b : UInt32) : (monus a b).toNat = a.toNat - b.toNat := by
  unfold monus
  split
  · exact UInt32.toNat_sub_of_le _ _ ‹_›
  · have : a.toNat < b.toNat := by simpa [UInt32.le_iff_toNat_le] using ‹¬b ≤ a›
    simp only [UInt32.toNat_zero]
    omega

/-- Line 0 stands for the first line. -/
def normalizeLine (line : UInt32) : UInt32 := if line = 0 then 1 else line

/-- A number in decimal. -/
def decimal (n : UInt32) : String := Nat.repr n.toNat

structure Issue where
  line : UInt32
  character : UInt32
  reason : String
  /-- The linter's name for this kind of issue. -/
  code : Option String
deriving DecidableEq, Inhabited

namespace Issue

def normalizedLine (i : Issue) : UInt32 := normalizeLine i.line

def row (i : Issue) : Row := i.normalizedLine - 1

def position (i : Issue) : Position := ⟨i.row, monus i.character 1⟩

/-- One line of a tooltip. -/
def tooltipEntry (i : Issue) : String :=
  match i.code with
  | some code => decimal i.character ++ ": " ++ i.reason ++ " (" ++ code ++ ")"
  | none => decimal i.character ++ ": " ++ i.reason

/-- The text for the status bar. -/
def statusText (i : Issue) : String :=
  decimal i.normalizedLine ++ ":" ++ decimal i.character ++ " " ++ i.reason

/-- Moves an issue up by some lines, at most to line 0. -/
def moveUp (lines : UInt32) (i : Issue) : Issue := { i with line := monus i.line lines }

theorem toNat_row (i : Issue) : i.row.toNat = i.line.toNat - 1 := by
  unfold row normalizedLine normalizeLine
  split
  · simp_all
  · have : 1 ≤ i.line := by
      rw [UInt32.le_iff_toNat_le]
      have : i.line.toNat ≠ 0 := fun h => ‹i.line ≠ 0› (UInt32.toNat_inj.mp h)
      simp only [UInt32.toNat_one]
      omega
    exact UInt32.toNat_sub_of_le _ _ this

end Issue

end LintMargin
