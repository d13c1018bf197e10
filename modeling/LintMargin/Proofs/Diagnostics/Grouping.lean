import LintMargin.Proofs.Diagnostics
import Mathlib.Data.List.Basic
import Mathlib.Data.List.ReduceOption

/-!
# Groups as sorted rows

Issues are put in their places one by one as a report is gone through. What comes of it is what sorting each
row by characters gives, with issues on the same character in the order of the report. Sorting keeps all that
can be said about one spot and forgets how spots were mixed: two lists in ascending order are equal if they
have the same issues on each character, in the same order.
-/

namespace LintMargin

/-! ### Sorting -/

namespace Issue

/-- The issues on a character, in their order. -/
def onCharacter (c : UInt32) (issues : List Issue) : List Issue :=
  issues.filter fun i => i.character = c

theorem onCharacter_cons (c : UInt32) (i : Issue) (l : List Issue) :
    onCharacter c (i :: l) = if i.character = c then i :: onCharacter c l else onCharacter c l := by
  simp only [onCharacter, List.filter_cons, decide_eq_true_eq]

theorem onCharacter_append (c : UInt32) (l l' : List Issue) :
    onCharacter c (l ++ l') = onCharacter c l ++ onCharacter c l' :=
  List.filter_append _ _

/-- Whether an issue may come before another one. -/
def mayPrecede (a b : Issue) : Bool := decide (a.character ≤ b.character)

/-- From left to right; issues on the same character stay in their order. -/
def leftToRight (issues : List Issue) : List Issue := issues.mergeSort mayPrecede

theorem mem_iff_of_onCharacter {l l' : List Issue} (hsame : ∀ c, onCharacter c l = onCharacter c l')
    (i : Issue) : i ∈ l ↔ i ∈ l' := by
  have hi : i ∈ onCharacter i.character l ↔ i ∈ onCharacter i.character l' := by
    rw [hsame]
  simpa [onCharacter] using hi

/-- Ascending lists are equal if they are on each character. -/
theorem eq_of_onCharacter {l l' : List Issue} (hl : l.Pairwise fun a b => a.character ≤ b.character)
    (hl' : l'.Pairwise fun a b => a.character ≤ b.character)
    (hsame : ∀ c, onCharacter c l = onCharacter c l') : l = l' := by
  induction l generalizing l' with
  | nil =>
      have hnone : ∀ i, i ∉ l' := fun i hi =>
        List.not_mem_nil ((mem_iff_of_onCharacter hsame i).mpr hi)
      exact (List.eq_nil_iff_forall_not_mem.mpr hnone).symm
  | cons a l ih =>
      cases l' with
      | nil =>
          exact absurd ((mem_iff_of_onCharacter hsame a).mp List.mem_cons_self) List.not_mem_nil
      | cons b l' =>
          obtain ⟨ha, htail⟩ := List.pairwise_cons.mp hl
          obtain ⟨hb, htail'⟩ := List.pairwise_cons.mp hl'
          -- Each head is in the other list too, so both are on the leftmost character.
          have hle : a.character ≤ b.character := by
            rcases List.mem_cons.mp ((mem_iff_of_onCharacter hsame b).mpr List.mem_cons_self) with h | h
            · rw [h]
              exact UInt32.le_refl _
            · exact ha b h
          have hge : b.character ≤ a.character := by
            rcases List.mem_cons.mp ((mem_iff_of_onCharacter hsame a).mp List.mem_cons_self) with h | h
            · rw [h]
              exact UInt32.le_refl _
            · exact hb a h
          have hcharacter : b.character = a.character := UInt32.le_antisymm hge hle
          have hfirst := hsame a.character
          rw [onCharacter_cons, onCharacter_cons, if_pos rfl, if_pos hcharacter] at hfirst
          obtain ⟨rfl, hrest⟩ := List.cons.inj hfirst
          refine congrArg (a :: ·) (ih htail htail' fun c => ?_)
          by_cases hc : a.character = c
          · rw [← hc]
            exact hrest
          · have hother := hsame c
            rwa [onCharacter_cons, onCharacter_cons, if_neg hc, if_neg hc] at hother

theorem mayPrecede_trans (a b c : Issue) (hab : mayPrecede a b) (hbc : mayPrecede b c) :
    mayPrecede a c :=
  decide_eq_true (UInt32.le_trans (of_decide_eq_true hab) (of_decide_eq_true hbc))

theorem mayPrecede_total (a b : Issue) : mayPrecede a b || mayPrecede b a := by
  simpa [mayPrecede] using UInt32.le_total a.character b.character

theorem leftToRight_perm (l : List Issue) : (leftToRight l).Perm l := List.mergeSort_perm l mayPrecede

theorem leftToRight_ascending (l : List Issue) :
    (leftToRight l).Pairwise fun a b => a.character ≤ b.character :=
  (List.pairwise_mergeSort mayPrecede_trans mayPrecede_total l).imp of_decide_eq_true

/-- Sorting leaves the issues on one character in their order. -/
theorem onCharacter_leftToRight (c : UInt32) (l : List Issue) :
    onCharacter c (leftToRight l) = onCharacter c l := by
  have hlevel : (onCharacter c l).Pairwise fun a b => mayPrecede a b = true := by
    refine List.pairwise_of_forall_mem_list fun a ha b hb => ?_
    have hac : a.character = c := of_decide_eq_true (List.mem_filter.mp ha).2
    have hbc : b.character = c := of_decide_eq_true (List.mem_filter.mp hb).2
    exact decide_eq_true (hac.trans hbc.symm ▸ UInt32.le_refl _)
  have hsorted : (onCharacter c l).Sublist (leftToRight l) :=
    List.sublist_mergeSort mayPrecede_trans mayPrecede_total hlevel List.filter_sublist
  have hpicked := hsorted.filter fun i => i.character = c
  simp only [onCharacter, List.filter_filter, Bool.and_self] at hpicked
  exact (hpicked.eq_of_length ((leftToRight_perm l).filter _).length_eq.symm).symm

end Issue

/-! ### Putting issues in their places -/

namespace LineGroup

open Issue

theorem issues_inj {g h : LineGroup} : g.issues = h.issues ↔ g = h := by
  cases g
  cases h
  simp

theorem place_perm (i : Issue) (l : List Issue) : (place i l).Perm (i :: l) := by
  induction l with
  | nil => exact .refl _
  | cons j rest ih =>
      rw [place]
      split
      · exact .refl _
      · exact (ih.cons j).trans (.swap i j rest)

theorem onCharacter_place (c : UInt32) (i : Issue) {l : List Issue}
    (hl : l.Pairwise fun a b => a.character ≤ b.character) :
    onCharacter c (place i l) = onCharacter c (l ++ [i]) := by
  induction l with
  | nil => rfl
  | cons j rest ih =>
      obtain ⟨hj, hrest⟩ := List.pairwise_cons.mp hl
      rw [place]
      split
      · next hlt =>
          -- All that the issue is put before is further right than it.
          by_cases hc : i.character = c
          · have hright : onCharacter c (j :: rest) = [] := by
              refine List.filter_eq_nil_iff.mpr fun k hk => ?_
              have hjk : j.character ≤ k.character := by
                rcases List.mem_cons.mp hk with rfl | hk
                · exact UInt32.le_refl _
                · exact hj k hk
              have hik : i.character < k.character := UInt32.lt_of_lt_of_le hlt hjk
              rw [decide_eq_true_eq, ← hc]
              exact fun hsame => UInt32.lt_irrefl _ (hsame ▸ hik)
            rw [onCharacter_cons, onCharacter_append, hright, if_pos hc, onCharacter_cons, if_pos hc]
            rfl
          · have helsewhere : onCharacter c [i] = [] := by
              rw [onCharacter_cons, if_neg hc]
              rfl
            rw [onCharacter_cons c i, if_neg hc, onCharacter_append, helsewhere, List.append_nil]
      · rw [List.cons_append, onCharacter_cons, onCharacter_cons, ih hrest]

/-- Putting an issue in its place among sorted ones is sorting it in last. -/
theorem place_leftToRight (i : Issue) (l : List Issue) :
    place i (leftToRight l) = leftToRight (l ++ [i]) := by
  apply eq_of_onCharacter (place_ascending i (leftToRight_ascending l)) (leftToRight_ascending _)
  intro c
  rw [onCharacter_place c i (leftToRight_ascending l), onCharacter_leftToRight, onCharacter_append,
    onCharacter_append, onCharacter_leftToRight]

end LineGroup

/-! ### Reports row by row -/

namespace Report

/-- The issues of a report, without placeholders. -/
def issues (report : Report) : List Issue := report.reduceOption

theorem mem_issues {report : Report} {i : Issue} : i ∈ report.issues ↔ some i ∈ report :=
  List.reduceOption_mem_iff

theorem issues_concat (report : Report) (entry : Option Issue) :
    Report.issues (report ++ [entry]) = report.issues ++ entry.toList := by
  rw [issues, List.reduceOption_append]
  cases entry <;> rfl

def onRow (report : Report) (row : Row) : List Issue := report.issues.filter fun i => i.row = row

theorem onRow_concat (report : Report) (entry : Option Issue) (row : Row) :
    Report.onRow (report ++ [entry]) row =
      report.onRow row ++ entry.toList.filter fun i => i.row = row := by
  rw [onRow, issues_concat, List.filter_append, onRow]

/-- The issues on one character of one row. -/
def onSpot (report : Report) (row : Row) (c : UInt32) : List Issue :=
  report.issues.filter fun i => i.row = row ∧ i.character = c

theorem onCharacter_onRow (report : Report) (row : Row) (c : UInt32) :
    Issue.onCharacter c (report.onRow row) = report.onSpot row c := by
  simp only [Issue.onCharacter, onRow, onSpot, List.filter_filter]
  apply List.filter_congr
  intro i _
  simp [and_comm]

end Report

namespace Diagnostics

open Issue

/-- The issues on a row; none if the row has no group. -/
def issuesOn (d : Diagnostics) (row : Row) : List Issue := (d.get? row).elim [] LineGroup.issues

theorem get?_eq_some_iff_issuesOn {d : Diagnostics} {row : Row} {g : LineGroup} :
    d.get? row = some g ↔ d.issuesOn row = g.issues := by
  unfold issuesOn
  cases d.get? row with
  | none => simpa using Ne.symm g.nonempty
  | some h => exact Option.some_inj.trans LineGroup.issues_inj.symm

theorem mem_keys_iff_issuesOn {d : Diagnostics} {row : Row} : row ∈ d.keys ↔ d.issuesOn row ≠ [] := by
  rw [← SortedMap.isSome_get?_iff]
  unfold issuesOn
  cases d.get? row with
  | none => simp
  | some g => simpa using g.nonempty

theorem ext_issuesOn {d e : Diagnostics} (h : ∀ row, d.issuesOn row = e.issuesOn row) : d = e := by
  apply SortedMap.ext
  intro row
  ext g
  rw [get?_eq_some_iff_issuesOn, get?_eq_some_iff_issuesOn, h]

theorem issuesOn_add (d : Diagnostics) (i : Issue) (row : Row) :
    (d.add i).issuesOn row =
      if i.row = row then LineGroup.place i (d.issuesOn row) else d.issuesOn row := by
  rw [issuesOn, Diagnostics.add, SortedMap.get?_insert]
  split
  · next hrow =>
      subst hrow
      unfold issuesOn
      cases d.get? i.row <;> rfl
  · rfl

/-- Gathering a report sorts each of its rows. -/
theorem issuesOn_aggregate (report : Report) (row : Row) :
    report.aggregate.issuesOn row = leftToRight (report.onRow row) := by
  induction report using List.reverseRecOn with
  | nil => exact List.mergeSort_nil.symm
  | append_singleton report entry ih =>
      rw [aggregate_concat, Report.onRow_concat]
      cases entry with
      | none => rwa [Option.toList_none, List.filter_nil, List.append_nil]
      | some i =>
          rw [Option.elim_some, issuesOn_add, ih, Option.toList_some, List.filter_singleton]
          split
          · next hrow => simp [hrow, LineGroup.place_leftToRight]
          · next hrow => simp [hrow]

theorem mem_keys_aggregate {report : Report} {row : Row} :
    row ∈ report.aggregate.keys ↔ ∃ i, some i ∈ report ∧ i.row = row := by
  simp only [mem_keys_iff_issuesOn, issuesOn_aggregate, ne_eq, List.eq_nil_iff_forall_not_mem,
    not_forall, not_not]
  refine exists_congr fun i => ?_
  rw [(leftToRight_perm _).mem_iff, Report.onRow, List.mem_filter, Report.mem_issues,
    decide_eq_true_eq]

/-- One more issue is one more in all groups together. -/
theorem issues_add_perm (d : Diagnostics) (i : Issue) :
    ((d.add i).values.flatMap LineGroup.issues).Perm (i :: d.values.flatMap LineGroup.issues) := by
  have hbefore := SortedMap.flatMap_values_perm LineGroup.issues d i.row
  obtain ⟨g, hadd, hg⟩ : ∃ g, d.add i = d.insert i.row g ∧
      g.issues.Perm (i :: (d.get? i.row).elim [] LineGroup.issues) := by
    refine ⟨_, rfl, ?_⟩
    cases d.get? i.row with
    | none => exact .refl _
    | some g => exact LineGroup.place_perm i g.issues
  rw [hadd]
  refine (SortedMap.flatMap_values_insert_perm _ d i.row g).trans ?_
  exact (hg.append_right _).trans (hbefore.symm.cons i)

theorem issues_aggregate_perm (report : Report) :
    (report.aggregate.values.flatMap LineGroup.issues).Perm report.issues := by
  induction report using List.reverseRecOn with
  | nil => exact .refl _
  | append_singleton report entry ih =>
      rw [aggregate_concat, Report.issues_concat]
      cases entry with
      | none => rwa [Option.toList_none, List.append_nil]
      | some i =>
          refine (issues_add_perm _ i).trans ((ih.cons i).trans ?_)
          exact (List.perm_append_singleton i _).symm

/-! ### What gathering keeps and what it forgets -/

theorem aggregate_eq_iff {xs ys : Report} :
    xs.aggregate = ys.aggregate ↔ ∀ row c, xs.onSpot row c = ys.onSpot row c := by
  constructor
  · intro h row c
    rw [← Report.onCharacter_onRow, ← Report.onCharacter_onRow,
      ← onCharacter_leftToRight, ← onCharacter_leftToRight c (ys.onRow row), ← issuesOn_aggregate,
      ← issuesOn_aggregate, h]
  · intro h
    refine ext_issuesOn fun row => ?_
    rw [issuesOn_aggregate, issuesOn_aggregate]
    apply eq_of_onCharacter (leftToRight_ascending _) (leftToRight_ascending _)
    intro c
    rw [onCharacter_leftToRight, onCharacter_leftToRight, Report.onCharacter_onRow,
      Report.onCharacter_onRow, h]

/-- Where every spot has one issue at most, the order of a report does not matter. -/
theorem aggregate_eq_of_perm {xs ys : Report} (hperm : xs.Perm ys)
    (hapart : xs.issues.Pairwise fun i j => ¬ (i.row = j.row ∧ i.character = j.character)) :
    xs.aggregate = ys.aggregate := by
  rw [aggregate_eq_iff]
  intro row c
  have hspot : (xs.onSpot row c).Perm (ys.onSpot row c) := (hperm.filterMap id).filter _
  have hsame : ∀ i ∈ xs.onSpot row c, i.row = row ∧ i.character = c := fun i hi => by
    simpa using (List.mem_filter.mp hi).2
  have honce := hapart.filter fun i => decide (i.row = row ∧ i.character = c)
  change (xs.onSpot row c).Pairwise _ at honce
  cases hxs : xs.onSpot row c with
  | nil =>
      rw [hxs] at hspot
      exact (List.nil_perm.mp hspot).symm
  | cons i rest =>
      rw [hxs] at hspot hsame honce
      obtain ⟨hrow, hcharacter⟩ := hsame i List.mem_cons_self
      have halone : rest = [] := List.eq_nil_iff_forall_not_mem.mpr fun k hk => by
        obtain ⟨hrow', hcharacter'⟩ := hsame k (List.mem_cons_of_mem _ hk)
        exact List.rel_of_pairwise_cons honce hk
          ⟨hrow.trans hrow'.symm, hcharacter.trans hcharacter'.symm⟩
      rw [halone] at hspot ⊢
      exact List.singleton_perm.mp hspot

/-- Gathering a report gives a group to each row that an issue is on, the issues of the row sorted by
character, in the order of the report on each character. Two reports are gathered into the same groups if and
only if they have the same issues on every spot, in the same order. -/
theorem aggregate_sorts_rows :
    (∀ report : Report,
      (∀ row, row ∈ report.aggregate.keys ↔ ∃ i, some i ∈ report ∧ i.row = row) ∧
      (∀ row g, report.aggregate.get? row = some g →
        g.issues = leftToRight (report.onRow row) ∧ g.issues ≠ [] ∧
        (g.issues.Pairwise fun a b => a.character ≤ b.character) ∧
        ∀ c, onCharacter c g.issues = report.onSpot row c) ∧
      (report.aggregate.values.flatMap LineGroup.issues).Perm report.issues) ∧
    (∀ xs ys : Report,
      xs.aggregate = ys.aggregate ↔ ∀ row c, xs.onSpot row c = ys.onSpot row c) ∧
    (∀ xs ys : Report, xs.issues = ys.issues → xs.aggregate = ys.aggregate) ∧
    ∀ xs ys : Report, xs.Perm ys →
      (xs.issues.Pairwise fun i j => ¬ (i.row = j.row ∧ i.character = j.character)) →
      xs.aggregate = ys.aggregate := by
  refine ⟨fun report => ⟨fun row => mem_keys_aggregate, fun row g hg => ?_,
    issues_aggregate_perm report⟩, fun xs ys => aggregate_eq_iff, fun xs ys h => ?_,
    fun xs ys => aggregate_eq_of_perm⟩
  · rw [get?_eq_some_iff_issuesOn, issuesOn_aggregate] at hg
    refine ⟨hg.symm, g.nonempty, g.ascending, fun c => ?_⟩
    rw [← hg, onCharacter_leftToRight, Report.onCharacter_onRow]
  · rw [aggregate_eq_iff]
    intro row c
    rw [Report.onSpot, Report.onSpot, h]

/-- Two issues on the first row, one of them about no line, and one on another row. -/
theorem aggregate_sorts_rows_reversed :
    let xs : Report :=
      [some ⟨1, 4, "b", none⟩, none, some ⟨0, 2, "a", none⟩, some ⟨3, 1, "c", none⟩]
    xs.Perm xs.reverse ∧
      (xs.issues.Pairwise fun i j => ¬ (i.row = j.row ∧ i.character = j.character)) ∧
      xs.aggregate = Report.aggregate xs.reverse := by
  intro xs
  have hperm : xs.Perm xs.reverse := (List.reverse_perm xs).symm
  have hapart : xs.issues.Pairwise fun i j => ¬ (i.row = j.row ∧ i.character = j.character) := by
    decide
  exact ⟨hperm, hapart, aggregate_sorts_rows.2.2.2 xs xs.reverse hperm hapart⟩

end Diagnostics

end LintMargin
