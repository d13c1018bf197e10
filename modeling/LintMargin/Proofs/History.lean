import Mathlib.Data.List.Induction

/-!
# Histories

What holds since something happened last. Whether an event of a history starts or ends something may
depend on the events before it; `since_concat` takes the last event off.
-/

namespace LintMargin

universe u

variable {α : Type u} {starts ends : List α → α → Prop} {history : List α}

/-- Some event of a history starts something that no event after it ends. Each event is judged with those
before it. -/
def Since (starts ends : List α → α → Prop) (history : List α) : Prop :=
  ∃ before a after, history = before ++ a :: after ∧ starts before a ∧
    ∀ between b rest, after = between ++ b :: rest → ¬ ends (before ++ a :: between) b

theorem not_since_nil : ¬ Since starts ends [] := by
  rintro ⟨before, a, after, hhistory, -⟩
  simp at hhistory

theorem since_concat {a : α} :
    Since starts ends (history ++ [a]) ↔
      starts history a ∨ Since starts ends history ∧ ¬ ends history a := by
  constructor
  · -- The event that started it is the last one, or the last one came after it and did not end it.
    rintro ⟨before, b, after, hhistory, hstarts, hlater⟩
    rcases List.eq_nil_or_concat after with rfl | ⟨after, c, rfl⟩
    · obtain ⟨rfl, hlast⟩ := List.append_inj' hhistory rfl
      cases hlast
      exact .inl hstarts
    · rw [List.concat_eq_append] at hhistory hlater
      rw [← List.cons_append, ← List.append_assoc] at hhistory
      obtain ⟨rfl, hlast⟩ := List.append_inj' hhistory rfl
      cases hlast
      refine .inr ⟨⟨before, b, after, rfl, hstarts, ?_⟩, hlater after a [] rfl⟩
      intro between c rest hafter
      exact hlater between c (rest ++ [a]) (by simp [hafter])
  · rintro (hstarts | ⟨⟨before, b, after, rfl, hstarts, hlater⟩, hopen⟩)
    · exact ⟨history, a, [], rfl, hstarts, by simp⟩
    · refine ⟨before, b, after ++ [a], by simp, hstarts, ?_⟩
      intro between c rest hafter
      rcases List.eq_nil_or_concat rest with rfl | ⟨rest, e, rfl⟩
      · obtain ⟨rfl, hlast⟩ := List.append_inj' hafter rfl
        cases hlast
        exact hopen
      · rw [List.concat_eq_append, ← List.cons_append, ← List.append_assoc] at hafter
        obtain ⟨rfl, -⟩ := List.append_inj' hafter rfl
        exact hlater between c rest rfl

/-- What holds after more events was started by one of them or held before. -/
theorem Since.of_append {more : List α} (h : Since starts ends (history ++ more)) :
    (∃ between a rest, more = between ++ a :: rest ∧ starts (history ++ between) a) ∨
      Since starts ends history := by
  induction more using List.reverseRecOn with
  | nil => exact .inr (by rwa [List.append_nil] at h)
  | append_singleton more a ih =>
      rw [← List.append_assoc, since_concat] at h
      rcases h with hstarts | ⟨h, -⟩
      · exact .inl ⟨more, a, [], rfl, hstarts⟩
      · rcases ih h with ⟨between, b, rest, rfl, hstarts⟩ | hbefore
        · exact .inl ⟨between, b, rest ++ [a], by simp, hstarts⟩
        · exact .inr hbefore

end LintMargin
