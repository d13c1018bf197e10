import LintMargin.Path
import Mathlib.Data.List.Basic

/-!
# Splitting and joining

Splitting a text at a separator and joining the parts with it are inverse to each other.
-/

namespace LintMargin.Text

variable {s : Char}

@[simp] theorem split_nil (s : Char) : split s [] = [[]] := rfl

theorem split_ne_nil (s : Char) (cs : List Char) : split s cs ≠ [] := by
  cases cs with
  | nil => simp
  | cons c rest =>
      rw [split]
      split
      · simp
      · split <;> simp

@[simp] theorem split_separator (s : Char) (cs : List Char) : split s (s :: cs) = [] :: split s cs := by
  rw [split]
  split
  · next h => exact absurd h (split_ne_nil s cs)
  · next h => simp [h]

/-- Parts of a text that holds no separator. -/
theorem split_eq_singleton {part : List Char} (h : s ∉ part) : split s part = [part] := by
  induction part with
  | nil => rfl
  | cons c rest ih =>
      rw [List.mem_cons, not_or] at h
      rw [split, ih h.2]
      simp [Ne.symm h.1]

theorem split_append (s : Char) (before after : List Char) :
    split s (before ++ s :: after) = split s before ++ split s after := by
  induction before with
  | nil => simp
  | cons c rest ih =>
      rw [List.cons_append, split, ih, split]
      cases hrest : split s rest with
      | nil => exact absurd hrest (split_ne_nil s rest)
      | cons part parts =>
          simp only [List.cons_append]
          split <;> rfl

theorem not_mem_of_mem_split {cs part : List Char} (h : part ∈ split s cs) : s ∉ part := by
  induction cs generalizing part with
  | nil =>
      rw [split_nil, List.mem_singleton] at h
      simp [h]
  | cons c rest ih =>
      rw [split] at h
      cases hrest : split s rest with
      | nil => exact absurd hrest (split_ne_nil s rest)
      | cons first parts =>
          rw [hrest] at h ih
          simp only at h
          split at h
          · rcases List.mem_cons.mp h with rfl | h
            · simp
            · exact ih h
          · next hc =>
              rcases List.mem_cons.mp h with rfl | h
              · rw [List.mem_cons, not_or]
                exact ⟨Ne.symm hc, ih List.mem_cons_self⟩
              · exact ih (List.mem_cons_of_mem _ h)

theorem join_cons {sep part : List Char} {parts : List (List Char)} (h : parts ≠ []) :
    join sep (part :: parts) = part ++ sep ++ join sep parts := by
  cases parts with
  | nil => exact absurd rfl h
  | cons next rest => rfl

theorem join_split (s : Char) (cs : List Char) : join [s] (split s cs) = cs := by
  induction cs with
  | nil => rfl
  | cons c rest ih =>
      rw [split]
      cases hrest : split s rest with
      | nil => exact absurd hrest (split_ne_nil s rest)
      | cons part parts =>
          rw [hrest] at ih
          simp only
          split
          · next hc => rw [join_cons (List.cons_ne_nil part parts), ih, hc]; rfl
          · cases parts with
            | nil => rw [join] at ih ⊢; rw [ih]
            | cons next parts =>
                rw [join_cons (List.cons_ne_nil next parts)] at ih ⊢
                rw [List.cons_append, List.cons_append, ih]

theorem split_join {parts : List (List Char)} (h : parts ≠ []) (hparts : ∀ p ∈ parts, s ∉ p) :
    split s (join [s] parts) = parts := by
  induction parts with
  | nil => exact absurd rfl h
  | cons part rest ih =>
      cases rest with
      | nil => exact split_eq_singleton (hparts part List.mem_cons_self)
      | cons next rest =>
          rw [join_cons (List.cons_ne_nil next rest), List.append_assoc, List.singleton_append,
            split_append, split_eq_singleton (hparts part List.mem_cons_self),
            ih (List.cons_ne_nil next rest) fun p hp => hparts p (List.mem_cons_of_mem _ hp)]
          rfl

theorem join_append {sep : List Char} {parts more : List (List Char)} (h : parts ≠ [])
    (hmore : more ≠ []) : join sep (parts ++ more) = join sep parts ++ sep ++ join sep more := by
  induction parts with
  | nil => exact absurd rfl h
  | cons first rest ih =>
      cases rest with
      | nil => exact join_cons hmore
      | cons next rest =>
          rw [List.cons_append, join_cons (by simp), join_cons (List.cons_ne_nil next rest),
            ih (List.cons_ne_nil next rest)]
          simp only [List.append_assoc]

theorem join_concat {sep part : List Char} {parts : List (List Char)} (h : parts ≠ []) :
    join sep (parts ++ [part]) = join sep parts ++ sep ++ part :=
  join_append h (List.cons_ne_nil part [])

theorem join_isPrefix {sep : List Char} {parts all : List (List Char)} (h : parts <+: all) :
    join sep parts <+: join sep all := by
  obtain ⟨more, rfl⟩ := h
  by_cases hparts : parts = []
  · subst hparts
    exact List.nil_prefix
  · by_cases hmore : more = []
    · exact hmore ▸ (List.append_nil parts).symm ▸ List.prefix_rfl
    · rw [join_append hparts hmore, List.append_assoc]
      exact List.prefix_append _ _

/-- A text without separator in front belongs to the first part. -/
theorem split_append_of_not_mem {part after first : List Char} {rest : List (List Char)}
    (hpart : s ∉ part) (h : split s after = first :: rest) :
    split s (part ++ after) = (part ++ first) :: rest := by
  induction part with
  | nil => exact h
  | cons c part ih =>
      rw [List.mem_cons, not_or] at hpart
      rw [List.cons_append, split, ih hpart.2]
      simp [Ne.symm hpart.1]

/-- What comes behind a text goes on with its last part. -/
theorem split_append_of_concat {cs last : List Char} {init : List (List Char)}
    (h : split s cs = init ++ [last]) (after : List Char) :
    split s (cs ++ after) = init ++ split s (last ++ after) := by
  have hcs : cs = join [s] (init ++ [last]) := by rw [← h, join_split]
  by_cases hinit : init = []
  · subst hinit
    rw [hcs]
    rfl
  · have hparts : ∀ part ∈ init, s ∉ part := fun part hpart =>
      not_mem_of_mem_split (h ▸ List.mem_append_left _ hpart)
    rw [hcs, join_concat hinit, List.append_assoc, List.append_assoc, List.singleton_append,
      split_append, split_join hinit hparts]

/-- A joined text holds what its parts and the separator hold. -/
theorem mem_join_iff {sep : List Char} {c : Char} (h : c ∉ sep) {parts : List (List Char)} :
    c ∈ join sep parts ↔ ∃ part ∈ parts, c ∈ part := by
  induction parts with
  | nil => simp [join]
  | cons part rest ih =>
      cases rest with
      | nil => simp [join]
      | cons next rest =>
          rw [join_cons (List.cons_ne_nil next rest), List.mem_append, List.mem_append, ih]
          simp [h]

end LintMargin.Text
