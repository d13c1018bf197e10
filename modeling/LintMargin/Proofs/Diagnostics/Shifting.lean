import LintMargin.Proofs.Diagnostics.Grouping

/-!
# Moving a report up

Taking lines back moves the groups below them up as they are. What is in these lines or above comes together
on the first row, where it is sorted anew.
-/

namespace LintMargin

theorem toNat_add_of_fits {a b : UInt32} (hfits : a.toNat + b.toNat < UInt32.size) :
    (a + b).toNat = a.toNat + b.toNat := by
  rw [UInt32.toNat_add]
  exact Nat.mod_eq_of_lt hfits

namespace Issue

theorem toNat_line_moveUp (lines : UInt32) (i : Issue) :
    (i.moveUp lines).line.toNat = i.line.toNat - lines.toNat :=
  toNat_monus i.line lines

/-- Below the first row nothing is lost in moving up. -/
theorem row_moveUp_eq_iff {lines : UInt32} {i : Issue} {row : Row} (hrow : 1 ≤ row.toNat) :
    (i.moveUp lines).row = row ↔ i.row.toNat = row.toNat + lines.toNat := by
  rw [← UInt32.toNat_inj, toNat_row, toNat_row, toNat_line_moveUp]
  omega

theorem row_moveUp_eq_zero_iff {lines : UInt32} {i : Issue} :
    (i.moveUp lines).row = 0 ↔ i.line.toNat ≤ lines.toNat + 1 := by
  rw [← UInt32.toNat_inj, toNat_row, toNat_line_moveUp, UInt32.toNat_zero]
  omega

theorem moveUp_moveUp {a b : UInt32} (hfits : a.toNat + b.toNat < UInt32.size) (i : Issue) :
    (i.moveUp a).moveUp b = i.moveUp (a + b) := by
  have hline : ((i.moveUp a).moveUp b).line = (i.moveUp (a + b)).line := by
    rw [← UInt32.toNat_inj, toNat_line_moveUp, toNat_line_moveUp, toNat_line_moveUp,
      toNat_add_of_fits hfits]
    omega
  exact congrArg (fun line => { i with line }) hline

theorem leftToRight_map_moveUp (lines : UInt32) (l : List Issue) :
    leftToRight (l.map (moveUp lines)) = (leftToRight l).map (moveUp lines) :=
  (List.map_mergeSort (f := moveUp lines) fun _ _ _ _ => rfl).symm

end Issue

/-- All issues of a group moved up. -/
def LineGroup.moveUp (lines : UInt32) (g : LineGroup) : LineGroup where
  issues := g.issues.map (Issue.moveUp lines)
  nonempty := by simpa using g.nonempty
  ascending := List.pairwise_map.mpr g.ascending

namespace Report

variable (lines : UInt32) (report : Report)

theorem issues_moveUp : (report.moveUp lines).issues = report.issues.map (Issue.moveUp lines) :=
  List.reduceOption_map

/-- The row that comes to a row further down is the one that many lines below it. -/
theorem onRow_moveUp {row : Row} (hrow : 1 ≤ row.toNat) :
    (report.moveUp lines).onRow row =
      if row.toNat + lines.toNat < UInt32.size then
        (report.onRow (row + lines)).map (Issue.moveUp lines) else [] := by
  rw [onRow, issues_moveUp, List.filter_map]
  split
  · next hfits =>
      congr 1
      apply List.filter_congr
      intro i _
      have hsame : (i.moveUp lines).row = row ↔ i.row = row + lines := by
        rw [Issue.row_moveUp_eq_iff hrow, ← UInt32.toNat_inj, toNat_add_of_fits hfits]
      simp [hsame]
  · next hbeyond =>
      rw [List.map_eq_nil_iff, List.filter_eq_nil_iff]
      intro i _ hi
      have hi' := (Issue.row_moveUp_eq_iff hrow).mp (of_decide_eq_true hi)
      exact hbeyond (hi' ▸ i.row.toNat_lt)

theorem onRow_zero_moveUp :
    (report.moveUp lines).onRow 0 =
      (report.issues.filter fun i => i.line.toNat ≤ lines.toNat + 1).map (Issue.moveUp lines) := by
  rw [onRow, issues_moveUp, List.filter_map]
  congr 1
  apply List.filter_congr
  intro i _
  simp [Issue.row_moveUp_eq_zero_iff]

theorem moveUp_moveUp {a b : UInt32} (hfits : a.toNat + b.toNat < UInt32.size) :
    (report.moveUp a).moveUp b = report.moveUp (a + b) := by
  simp only [moveUp, List.map_map]
  apply List.map_congr_left
  intro entry _
  cases entry with
  | none => rfl
  | some i => exact congrArg some (Issue.moveUp_moveUp hfits i)

end Report

namespace Diagnostics

open Issue

theorem issuesOn_moveUp (report : Report) (lines : UInt32) {row : Row} (hrow : 1 ≤ row.toNat) :
    (report.moveUp lines).aggregate.issuesOn row =
      if row.toNat + lines.toNat < UInt32.size then
        (report.aggregate.issuesOn (row + lines)).map (Issue.moveUp lines) else [] := by
  rw [issuesOn_aggregate, Report.onRow_moveUp _ _ hrow, issuesOn_aggregate]
  split
  · exact leftToRight_map_moveUp lines _
  · exact List.mergeSort_nil

theorem get?_moveUp (report : Report) (lines : UInt32) {row : Row} (hrow : 1 ≤ row.toNat) :
    (report.moveUp lines).aggregate.get? row =
      if row.toNat + lines.toNat < UInt32.size then
        (report.aggregate.get? (row + lines)).map (LineGroup.moveUp lines) else none := by
  ext g
  rw [get?_eq_some_iff_issuesOn, issuesOn_moveUp report lines hrow]
  split
  · unfold issuesOn
    cases report.aggregate.get? (row + lines) with
    | none => simpa using Ne.symm g.nonempty
    | some h =>
        rw [Option.map_some, Option.some_inj, ← LineGroup.issues_inj]
        exact Iff.rfl
  · simpa using Ne.symm g.nonempty

/-- Moving a report up by some lines moves the groups below these lines up as they are, and sorts all other
issues together into the group of the first row. Placeholders stay where they are, and moving up twice is
moving up once by both. -/
theorem aggregate_moveUp (report : Report) (lines : UInt32) :
    let before := report.aggregate
    let after := (report.moveUp lines).aggregate
    (∀ row : Row, 1 ≤ row →
      after.get? row =
        if row.toNat + lines.toNat < UInt32.size then
          (before.get? (row + lines)).map (LineGroup.moveUp lines) else none) ∧
    (∀ row g, before.get? row = some g → lines < row → ∀ i ∈ g.issues,
      (i.moveUp lines).line.toNat + lines.toNat = i.line.toNat) ∧
    (0 ∈ after.keys ↔ ∃ i, some i ∈ report ∧ i.line.toNat ≤ lines.toNat + 1) ∧
    (∀ g, after.get? 0 = some g → g.issues = leftToRight
      ((report.issues.filter fun i => i.line.toNat ≤ lines.toNat + 1).map (Issue.moveUp lines))) ∧
    (∀ i : Issue, i.moveUp lines = { i with line := (i.moveUp lines).line } ∧
      (i.moveUp lines).line.toNat = i.line.toNat - lines.toNat) ∧
    (∀ k : Nat, (report.moveUp lines)[k]? = some none ↔ report[k]? = some none) ∧
    ∀ more : UInt32, lines.toNat + more.toNat < UInt32.size →
      (report.moveUp lines).moveUp more = report.moveUp (lines + more) := by
  intro before after
  refine ⟨fun row hrow => ?_, fun row g hg hbelow i hi => ?_, ?_, fun g hg => ?_, fun i => ⟨rfl, ?_⟩,
    fun k => ?_, fun more hfits => report.moveUp_moveUp hfits⟩
  · exact get?_moveUp report lines (UInt32.le_iff_toNat_le.mp hrow)
  · have hrow := congrArg UInt32.toNat (onRows_aggregate report row g hg i hi)
    rw [toNat_row] at hrow
    rw [UInt32.lt_iff_toNat_lt] at hbelow
    rw [toNat_line_moveUp]
    omega
  · rw [mem_keys_aggregate]
    constructor
    · rintro ⟨i, hi, hrow⟩
      rw [← Report.mem_issues, Report.issues_moveUp] at hi
      obtain ⟨j, hj, rfl⟩ := List.mem_map.mp hi
      exact ⟨j, Report.mem_issues.mp hj, row_moveUp_eq_zero_iff.mp hrow⟩
    · rintro ⟨i, hi, hline⟩
      exact ⟨_, List.mem_map_of_mem hi, row_moveUp_eq_zero_iff.mpr hline⟩
  · rwa [get?_eq_some_iff_issuesOn, issuesOn_aggregate, Report.onRow_zero_moveUp, eq_comm] at hg
  · exact toNat_line_moveUp lines i
  · simp [Report.moveUp, List.getElem?_map]

/-- Two lines are taken back from issues on line 0, in these lines, right below them and further down. -/
theorem aggregate_moveUp_folding :
    let report : Report := [some ⟨3, 9, "below", none⟩, none, some ⟨2, 4, "added", none⟩,
      some ⟨0, 9, "nowhere", none⟩, some ⟨5, 1, "further", some "W1"⟩]
    (1 : Row) ≤ 2 ∧ (report.moveUp 2).aggregate.get? 2 =
        some (LineGroup.ofIssue ⟨3, 1, "further", some "W1"⟩) ∧
      (∃ g, (report.moveUp 2).aggregate.get? 0 = some g ∧ g.issues = leftToRight
        [⟨1, 9, "below", none⟩, ⟨0, 4, "added", none⟩, ⟨0, 9, "nowhere", none⟩]) ∧
      (report.moveUp 2).moveUp 3 = report.moveUp 5 := by
  intro report
  obtain ⟨hrows, -, hfirst, hgroup, -, -, htwice⟩ := aggregate_moveUp report 2
  have hrow : (1 : Row) ≤ 2 := by decide
  have hmember : 0 ∈ (report.moveUp 2).aggregate.keys := hfirst.mpr ⟨_, List.mem_cons_self, by decide⟩
  obtain ⟨g, hg⟩ := SortedMap.mem_keys_iff.mp hmember
  exact ⟨hrow, (hrows 2 hrow).trans (by decide), ⟨g, hg, hgroup g hg⟩, htwice 3 (by decide)⟩

end Diagnostics

end LintMargin
