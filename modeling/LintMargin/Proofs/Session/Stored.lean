import LintMargin.Proofs.Diagnostics
import LintMargin.Proofs.Session.Acts

/-!
# What all stored issues have in common

Issues get into the store from the reports of linters, moved up past the lines that were added, and in no
other way. What holds of all such issues holds of all stored ones after every run.
-/

namespace LintMargin

universe u

variable {σ : Type u} {P : Row → Issue → Prop}

namespace Store

/-- Every stored issue passes a test that may depend on its row. -/
def Each (P : Row → Issue → Prop) (store : Store) : Prop := ∀ doc, (store.diagnostics doc).Each P

theorem each_empty : Each P ∅ := fun _ => Diagnostics.each_empty

theorem Each.of_mem_entries {store : Store} (hstore : store.Each P) {doc : DocumentId}
    {entry : Row × LineGroup} (hentry : entry ∈ (store.diagnostics doc).entries) :
    ∀ i ∈ entry.2.issues, P entry.1 i :=
  hstore doc entry.1 entry.2 (SortedMap.get?_eq_some_iff.mpr hentry)

theorem Each.insert {store : Store} (hstore : store.Each P) (doc : DocumentId) {d : Diagnostics}
    (hd : d.Each P) : Store.Each P (SortedMap.insert store doc d) := by
  intro k
  rw [diagnostics, SortedMap.get?_insert]
  split
  · exact hd
  · exact hstore k

theorem Each.erase {store : Store} (hstore : store.Each P) (doc : DocumentId) :
    Store.Each P (SortedMap.erase store doc) := by
  intro k
  rw [diagnostics, SortedMap.get?_erase]
  split
  · exact Diagnostics.each_empty
  · exact hstore k

end Store

/-- Whatever the linters report passes the test once it is moved up. -/
def Services.Reports (sv : Services σ) (P : Row → Issue → Prop) : Prop :=
  ∀ flavor source config globals x i,
    some i ∈ Report.ofAnswer (sv.lint flavor source config globals x).1 →
      ∀ lines, P (i.moveUp lines).row (i.moveUp lines)

/-- A report that is moved up has the moved issues. -/
theorem Report.exists_of_mem_moveUp {lines : UInt32} {report : Report} {i : Issue}
    (hi : some i ∈ report.moveUp lines) : ∃ j, some j ∈ report ∧ j.moveUp lines = i := by
  obtain ⟨entry, hentry, hmoved⟩ := List.mem_map.mp hi
  obtain ⟨j, rfl, hj⟩ := Option.map_eq_some_iff.mp hmoved
  exact ⟨j, hentry, hj⟩

namespace Session

variable {sv : Services σ} {s : Session σ}

theorem each_diagnosticsOf (hsv : sv.Reports P) (d : Document) (config : LintConfig) :
    (diagnosticsOf s.settings d (.ofAnswer (s.linterAnswer sv d config))).Each P := by
  refine Diagnostics.each_aggregate fun i hi => ?_
  obtain ⟨j, hj, rfl⟩ := Report.exists_of_mem_moveUp hi
  exact hsv _ _ _ _ _ j hj _

theorem each_runPass (hsv : sv.Reports P) (hs : s.store.Each P) (doc : DocumentId) :
    (s.runPass sv doc).2.store.Each P := by
  have hresult := runPass_result sv doc s
  generalize s.runPass sv doc = result at hresult ⊢
  cases hresult with
  | noDocument => exact hs
  | unsupported => exact hs
  | ignored => exact Store.Each.erase hs doc
  | @noConfig d => exact (aside_lookUp sv d s).store ▸ hs
  | @linted d =>
      rw [store_lintDocument, (aside_lookUp sv d s).store]
      exact Store.Each.insert hs doc (each_diagnosticsOf hsv d _)

theorem Step.each {P' : DocumentId → Prop} {made : List (DocumentId × Outcome)} {t : Session σ}
    (hsv : sv.Reports P) (h : Step sv P' made s t) (hs : s.store.Each P) : t.store.Each P := by
  cases h with
  | beside h => exact h.store ▸ hs
  | arrange => exact hs
  | @pass _ doc => exact each_runPass hsv hs doc
  | render => exact hs
  | @purge _ doc => exact Store.Each.erase hs doc
  | release => exact hs
  | register => exact hs
  | greet => exact hs

/-- What all reports have in common is kept by every run. -/
theorem each_run (hsv : sv.Reports P) (hs : s.store.Each P) (acts : List (Act σ)) :
    (s.run sv acts).store.Each P :=
  (run_steps_of_true sv s acts).keep (fun _ _ _ hstep => hstep.each hsv) hs

end Session

end LintMargin
