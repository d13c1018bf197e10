import LintMargin.Issue

/-!
# Line groups

The issues of one row, from left to right. Issues on the same character stay in the order in which they
were added.
-/

namespace LintMargin

/-- One or more issues in ascending order of their characters. -/
structure LineGroup where
  issues : List Issue
  nonempty : issues ≠ []
  ascending : issues.Pairwise fun a b => a.character ≤ b.character
deriving DecidableEq

namespace LineGroup

def ofIssue (i : Issue) : LineGroup := ⟨[i], by simp, by simp⟩

instance : Inhabited LineGroup := ⟨ofIssue default⟩

/-- Puts an issue behind all that are not further right. -/
def place (i : Issue) : List Issue → List Issue
  | [] => [i]
  | j :: rest => if i.character < j.character then i :: j :: rest else j :: place i rest

theorem mem_place {i j : Issue} {l : List Issue} : j ∈ place i l ↔ j = i ∨ j ∈ l := by
  induction l with
  | nil => simp [place]
  | cons head rest ih =>
    rw [place]
    split
    · simp
    · simp only [List.mem_cons, ih]
      exact or_left_comm

theorem place_ne_nil (i : Issue) (l : List Issue) : place i l ≠ [] :=
  List.ne_nil_of_mem (mem_place.mpr (.inl rfl))

theorem place_ascending (i : Issue) {l : List Issue}
    (h : l.Pairwise fun a b => a.character ≤ b.character) :
    (place i l).Pairwise fun a b => a.character ≤ b.character := by
  induction l with
  | nil => simp [place]
  | cons head rest ih =>
    have ⟨above, tail⟩ := List.pairwise_cons.mp h
    rw [place]
    split
    · refine List.pairwise_cons.mpr ⟨fun j hj => ?_, h⟩
      have first : i.character ≤ head.character := UInt32.le_of_lt ‹_›
      rcases List.mem_cons.mp hj with rfl | hj
      · exact first
      · exact UInt32.le_trans first (above j hj)
    · refine List.pairwise_cons.mpr ⟨fun j hj => ?_, ih tail⟩
      rcases mem_place.mp hj with rfl | hj
      · exact UInt32.not_lt.mp ‹_›
      · exact above j hj

def add (g : LineGroup) (i : Issue) : LineGroup :=
  ⟨place i g.issues, place_ne_nil i g.issues, place_ascending i g.ascending⟩

/-- The leftmost issue, the one for the status bar. -/
def first (g : LineGroup) : Issue := g.issues.head g.nonempty

/-- One line for each issue. -/
def tooltipText (g : LineGroup) : String := "\n".intercalate (g.issues.map Issue.tooltipEntry)

end LineGroup

end LintMargin
