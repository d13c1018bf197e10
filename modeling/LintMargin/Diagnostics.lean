import LintMargin.LineGroup

/-!
# Diagnostics of one document

A linter's report is a list of issues, with placeholders where an entry could not be understood. The
issues are gathered by row; rows without an issue have no group.
-/

namespace LintMargin

/-- What a linter reported, in its order. -/
abbrev Report := List (Option Issue)

/-- The issues of a document by row. -/
abbrev Diagnostics := SortedMap Row LineGroup

namespace Diagnostics

/-- One more issue, on its own row. -/
def add (d : Diagnostics) (i : Issue) : Diagnostics :=
  d.insert i.row (match d.get? i.row with
    | some group => group.add i
    | none => .ofIssue i)

/-- The first group whose row is not above the given one, with its row. -/
def firstFrom (d : Diagnostics) (row : Row) : Option (Row × LineGroup) :=
  d.entries.find? fun e => row ≤ e.1

/-- The group on the lowest row, with its row. -/
def firstGroup (d : Diagnostics) : Option (Row × LineGroup) := d.entries.head?

end Diagnostics

namespace Report

def aggregate (report : Report) : Diagnostics :=
  report.foldl (fun d entry => match entry with
    | some i => d.add i
    | none => d) ∅

/-- Takes back lines that were put in front of the text. Issues in those lines come to line 0. -/
def moveUp (lines : UInt32) (report : Report) : Report := report.map (·.map (Issue.moveUp lines))

end Report

end LintMargin
