import LintMargin.Store
import LintMargin.Proofs.SortedMap
import Mathlib.Data.List.Induction

/-!
# Where issues are kept

Gathering a report puts every issue into the group of its own row, and the first group of a document is
the one on its lowest row.
-/

namespace LintMargin

namespace LineGroup

theorem first_mem (g : LineGroup) : g.first ∈ g.issues := List.head_mem g.nonempty

end LineGroup

namespace Diagnostics

/-- Every issue passes a test that may depend on the row that it is on. -/
def Each (P : Row → Issue → Prop) (d : Diagnostics) : Prop :=
  ∀ row g, d.get? row = some g → ∀ i ∈ g.issues, P row i

/-- Every issue is in the group of its own row. -/
def OnRows (d : Diagnostics) : Prop :=
  ∀ row g, d.get? row = some g → ∀ i ∈ g.issues, i.row = row

section Each

variable {P : Row → Issue → Prop}

theorem each_empty : Each P ∅ := by
  intro row g h
  simp at h

theorem Each.add {d : Diagnostics} (hd : d.Each P) {i : Issue} (hi : P i.row i) : (d.add i).Each P := by
  intro row g hg j hj
  rw [Diagnostics.add, SortedMap.get?_insert] at hg
  split at hg
  · next hrow =>
      subst hrow
      obtain rfl := Option.some.inj hg
      cases hold : d.get? i.row with
      | none =>
          rw [hold] at hj
          obtain rfl : j = i := by simpa [LineGroup.ofIssue] using hj
          exact hi
      | some old =>
          rw [hold] at hj
          rcases LineGroup.mem_place.mp hj with rfl | hj
          · exact hi
          · exact hd i.row old hold j hj
  · exact hd row g hg j hj

theorem each_aggregate {report : Report} (hreport : ∀ i, some i ∈ report → P i.row i) :
    report.aggregate.Each P := by
  refine List.foldlRecOn report _ each_empty fun d hd entry hentry => ?_
  cases entry with
  | none => exact hd
  | some i => exact hd.add (hreport i hentry)

end Each

theorem onRows_empty : OnRows ∅ := each_empty

theorem onRows_aggregate (report : Report) : report.aggregate.OnRows :=
  each_aggregate fun _ _ => rfl

/-- A group that is there only grows, and the issue is in the group of its row afterwards. -/
theorem exists_get?_add (d : Diagnostics) (i : Issue) :
    (∃ g, (d.add i).get? i.row = some g ∧ i ∈ g.issues) ∧
      ∀ row g, d.get? row = some g → ∃ grown, (d.add i).get? row = some grown ∧ g.issues ⊆ grown.issues := by
  simp only [Diagnostics.add, SortedMap.get?_insert]
  constructor
  · cases d.get? i.row with
    | none => exact ⟨.ofIssue i, by simp, List.mem_singleton_self i⟩
    | some g => exact ⟨g.add i, by simp, LineGroup.mem_place.mpr (.inl rfl)⟩
  · intro row g hg
    split
    · next hrow =>
        subst hrow
        rw [hg]
        exact ⟨g.add i, rfl, fun j hj => LineGroup.mem_place.mpr (.inr hj)⟩
    · exact ⟨g, hg, List.Subset.refl _⟩

theorem aggregate_concat (report : Report) (entry : Option Issue) :
    Report.aggregate (report ++ [entry]) = entry.elim report.aggregate report.aggregate.add := by
  rw [Report.aggregate, List.foldl_append]
  cases entry <;> rfl

/-- Every issue of a report is in the group of its row. -/
theorem exists_get?_aggregate {report : Report} {i : Issue} (hi : some i ∈ report) :
    ∃ g, report.aggregate.get? i.row = some g ∧ i ∈ g.issues := by
  induction report using List.reverseRecOn with
  | nil => cases hi
  | append_singleton report entry ih =>
      rw [aggregate_concat]
      rcases List.mem_append.mp hi with hi | hi
      · obtain ⟨g, hg, hmem⟩ := ih hi
        cases entry with
        | none => exact ⟨g, hg, hmem⟩
        | some j =>
            obtain ⟨grown, hgrown, hsubset⟩ := (exists_get?_add (Report.aggregate report) j).2 i.row g hg
            exact ⟨grown, hgrown, hsubset hmem⟩
      · obtain rfl : some i = entry := List.mem_singleton.mp hi
        exact (exists_get?_add (Report.aggregate report) i).1

/-- The first group is on the lowest row. -/
theorem firstGroup_eq_some_iff {d : Diagnostics} {row : Row} {g : LineGroup} :
    d.firstGroup = some (row, g) ↔ d.get? row = some g ∧ ∀ r ∈ d.keys, row ≤ r := by
  have hentries : d.entries.Pairwise fun a b => rank a.1 < rank b.1 := d.ascending
  simp only [firstGroup, SortedMap.get?_eq_some_iff, SortedMap.keys, List.mem_map,
    forall_exists_index, and_imp]
  cases hd : d.entries with
  | nil => simp
  | cons head rest =>
      rw [hd] at hentries
      have habove : ∀ e ∈ rest, head.1 ≤ e.1 := fun e he =>
        UInt32.le_iff_toNat_le.mpr (Nat.le_of_lt (List.rel_of_pairwise_cons hentries he))
      constructor
      · intro h
        obtain rfl : head = (row, g) := by simpa using h
        refine ⟨List.mem_cons_self, ?_⟩
        rintro r e he rfl
        rcases List.mem_cons.mp he with rfl | he
        · exact UInt32.le_refl _
        · exact habove e he
      · rintro ⟨hmem, hlow⟩
        rcases List.mem_cons.mp hmem with rfl | hmem
        · rfl
        · have hle : row ≤ head.1 := hlow head.1 head List.mem_cons_self rfl
          have hlt : head.1.toNat < row.toNat := List.rel_of_pairwise_cons hentries hmem
          exact absurd (UInt32.le_iff_toNat_le.mp hle) (Nat.not_le.mpr hlt)

theorem firstGroup_eq_none_iff {d : Diagnostics} : d.firstGroup = none ↔ ∀ row, d.get? row = none := by
  constructor
  · intro h row
    rw [SortedMap.get?_eq_none_iff, SortedMap.keys, List.head?_eq_none_iff.mp h]
    exact List.not_mem_nil
  · intro h
    cases hfirst : d.firstGroup with
    | none => rfl
    | some e => simpa [h] using (firstGroup_eq_some_iff.mp hfirst).1

/-- The first group from a row on is the first one of those that are not above it. -/
theorem firstFrom_eq (d : Diagnostics) (start : Row) :
    d.firstFrom start = firstGroup (d.filter fun row _ => start ≤ row) :=
  List.head?_filter.symm

theorem firstFrom_eq_some_iff {d : Diagnostics} {start row : Row} {g : LineGroup} :
    d.firstFrom start = some (row, g) ↔
      d.get? row = some g ∧ start ≤ row ∧ ∀ r ∈ d.keys, start ≤ r → row ≤ r := by
  have hfound : (d.filter fun row _ => start ≤ row).get? row = some g ↔ d.get? row = some g ∧ start ≤ row := by
    rw [SortedMap.get?_filter, Option.filter_eq_some_iff, decide_eq_true_eq]
  have hkeys : (d.filter fun row _ => start ≤ row).keys = d.keys.filter fun row => start ≤ row :=
    SortedMap.keys_filter (fun row => decide (start ≤ row)) d
  rw [firstFrom_eq, firstGroup_eq_some_iff, hfound, hkeys, and_assoc]
  simp only [List.mem_filter, decide_eq_true_eq, and_imp]

theorem firstFrom_eq_none_iff {d : Diagnostics} {start : Row} :
    d.firstFrom start = none ↔ ∀ r ∈ d.keys, r < start := by
  simp [firstFrom, SortedMap.keys]

end Diagnostics

/-! ### Entries of a store -/

namespace Store

theorem diagnostics_of_get?_eq_none {store : Store} {doc : DocumentId} (h : store.get? doc = none) :
    store.diagnostics doc = ∅ := by
  rw [diagnostics, h, Option.getD_none]

theorem diagnostics_insert_self (store : Store) (doc : DocumentId) (d : Diagnostics) :
    Store.diagnostics (store.insert doc d) doc = d := by
  rw [diagnostics, SortedMap.get?_insert_self, Option.getD_some]

end Store

end LintMargin
