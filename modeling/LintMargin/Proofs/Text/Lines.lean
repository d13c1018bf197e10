import LintMargin.Text.Lines
import Mathlib.Data.List.Basic

/-!
# Lines of a text

`lines_append_newline` takes the first line off a text; what is known about all lines follows by taking
off one after the other. Texts without newlines that do not end in a carriage return are read back from
the text in which newlines are put between them.
-/

namespace LintMargin.Text

theorem linesFrom_of_not_mem {cs : List Char} (hcs : '\n' ∉ cs) (before : List Char) :
    linesFrom before cs = if before = [] ∧ cs = [] then [] else [before.reverse ++ cs] := by
  induction cs generalizing before with
  | nil => cases before <;> simp [linesFrom]
  | cons c rest ih =>
      rw [List.mem_cons, not_or] at hcs
      rw [linesFrom, if_neg (Ne.symm hcs.1), ih hcs.2]
      simp

theorem linesFrom_append_newline {line : List Char} (hline : '\n' ∉ line) (before rest : List Char) :
    linesFrom before (line ++ '\n' :: rest) = closeLine (line.reverse ++ before) :: lines rest := by
  induction line generalizing before with
  | nil => simp [linesFrom, lines]
  | cons c line ih =>
      rw [List.mem_cons, not_or] at hline
      rw [List.cons_append, linesFrom, if_neg (Ne.symm hline.1), ih hline.2]
      simp

theorem lines_of_not_mem {cs : List Char} (hcs : '\n' ∉ cs) (hne : cs ≠ []) : lines cs = [cs] := by
  rw [lines, linesFrom_of_not_mem hcs]
  simp [hne]

/-- The first line of a text with a newline. -/
theorem lines_append_newline {line : List Char} (hline : '\n' ∉ line) (rest : List Char) :
    lines (line ++ '\n' :: rest) = closeLine line.reverse :: lines rest := by
  rw [lines, linesFrom_append_newline hline, List.append_nil]

/-- A line end takes nothing from a line that does not end in a carriage return. -/
theorem closeLine_reverse {line : List Char} (hline : line.getLast? ≠ some '\r') :
    closeLine line.reverse = line := by
  cases hreverse : line.reverse with
  | nil => simpa [closeLine] using hreverse.symm
  | cons c before =>
      have hc : c ≠ '\r' := by
        rintro rfl
        rw [← List.head?_reverse, hreverse] at hline
        exact hline rfl
      unfold closeLine
      split
      · next heq => exact absurd (List.cons.inj heq).1 hc
      · rw [← hreverse, List.reverse_reverse]

/-- A line end takes a carriage return from a line, if anything. -/
theorem exists_eq_closeLine_append (line : List Char) :
    ∃ rest, line = closeLine line.reverse ++ rest ∧ (rest = [] ∨ rest = ['\r']) := by
  by_cases hline : line.getLast? = some '\r'
  · obtain ⟨front, rfl⟩ := List.getLast?_eq_some_iff.mp hline
    exact ⟨['\r'], by simp [closeLine], .inr rfl⟩
  · exact ⟨[], by rw [closeLine_reverse hline, List.append_nil], .inl rfl⟩

theorem mem_of_mem_closeLine {before : List Char} {c : Char} (hc : c ∈ closeLine before) :
    c ∈ before := by
  unfold closeLine at hc
  split at hc
  · exact List.mem_cons_of_mem _ (List.mem_reverse.mp hc)
  · exact List.mem_reverse.mp hc

/-- A text is read line by line: it has no newline, or a first line that ends in one. -/
theorem lines_induction {P : List Char → Prop} (hlast : ∀ cs, '\n' ∉ cs → P cs)
    (hfirst : ∀ line rest, '\n' ∉ line → P rest → P (line ++ '\n' :: rest)) (cs : List Char) : P cs := by
  induction hn : cs.length using Nat.strongRecOn generalizing cs with
  | ind n ih =>
      by_cases hcs : '\n' ∈ cs
      · obtain ⟨line, rest, rfl, hline⟩ := List.eq_append_cons_of_mem hcs
        refine hfirst line rest hline (ih rest.length ?_ rest rfl)
        rw [← hn, List.length_append, List.length_cons]
        omega
      · exact hlast cs hcs

theorem newline_not_mem_of_mem_lines {cs line : List Char} (h : line ∈ lines cs) : '\n' ∉ line := by
  induction cs using lines_induction with
  | hlast cs hcs =>
      cases cs with
      | nil => simp [lines, linesFrom] at h
      | cons c rest =>
          rw [lines_of_not_mem hcs (List.cons_ne_nil c rest), List.mem_singleton] at h
          exact h ▸ hcs
  | hfirst first rest hfirst ih =>
      rw [lines_append_newline hfirst, List.mem_cons] at h
      rcases h with rfl | h
      · exact fun hmem => hfirst (List.mem_reverse.mp (mem_of_mem_closeLine hmem))
      · exact ih h

/-- Texts of one line each are the lines of the text in which they follow one another. -/
theorem lines_intercalate {parts : List (List Char)} (hline : ∀ p ∈ parts, '\n' ∉ p)
    (hne : ∀ p ∈ parts, p ≠ []) (hreturn : ∀ p ∈ parts, p.getLast? ≠ some '\r') :
    lines (['\n'].intercalate parts) = parts := by
  induction parts with
  | nil => rfl
  | cons part rest ih =>
      rw [List.forall_mem_cons] at hline hne hreturn
      cases rest with
      | nil =>
          rw [List.intercalate_singleton]
          exact lines_of_not_mem hline.1 hne.1
      | cons next rest =>
          rw [List.intercalate_cons_cons, List.append_assoc, List.singleton_append,
            lines_append_newline hline.1, closeLine_reverse hreturn.1, ih hline.2 hne.2 hreturn.2]

end LintMargin.Text
