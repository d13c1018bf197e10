import LintMargin.Linter.Pragma
import LintMargin.Proofs.Text.Lines

/-!
# Lines behind the pragma

A prepared text has all lines of the text it was made from, after the ones that were added. Preparing it
again adds nothing.
-/

namespace LintMargin.Pragma

/-- All lines of a text, after as many others as are said to be added. -/
def Prepared.Holds (seen : Prepared) (source : String) : Prop :=
  ∃ extra, extra.length = seen.addedLines.toNat ∧
    Text.lines seen.source.toList = extra ++ Text.lines source.toList

theorem holds_same (source : String) : (Prepared.same source).Holds source :=
  ⟨[], rfl, rfl⟩

theorem addedLines_prepare (source : String) :
    (prepare source).addedLines = 0 ∨ (prepare source).addedLines = 1 := by
  unfold prepare
  split
  · exact .inl rfl
  · exact .inr rfl

theorem newline_not_mem_line : '\n' ∉ line.toList := by decide

theorem toList_behind_line (source : String) :
    (line ++ "\n" ++ source).toList = line.toList ++ '\n' :: source.toList := by
  rw [String.toList_append, String.toList_append, List.append_assoc]
  rfl

/-- The pragma is a line of its own. -/
theorem lines_behind_line (source : String) :
    Text.lines (line ++ "\n" ++ source).toList = line.toList :: Text.lines source.toList := by
  have hreturn : line.toList.getLast? ≠ some '\r' := by decide
  rw [toList_behind_line, Text.lines_append_newline newline_not_mem_line,
    Text.closeLine_reverse hreturn]

theorem holds_prepare (source : String) : (prepare source).Holds source := by
  unfold prepare
  split
  · exact holds_same source
  · exact ⟨[line.toList], rfl, lines_behind_line source⟩

theorem isDeclared_behind_line (source : String) : isDeclared (line ++ "\n" ++ source) = true := by
  rw [isDeclared, toList_behind_line]
  rfl

theorem prepare_prepare (source : String) :
    prepare (prepare source).source = .same (prepare source).source := by
  have hdeclared : isDeclared (prepare source).source = true := by
    unfold prepare
    split
    · next hsource => exact hsource
    · exact isDeclared_behind_line source
  rw [prepare, if_pos hdeclared]

/-- The linter sees a line of the text further down, by as many lines as were added. -/
theorem Prepared.Holds.getElem? {seen : Prepared} {source : String} (hseen : seen.Holds source)
    (n : Nat) :
    (Text.lines seen.source.toList)[n + seen.addedLines.toNat]? = (Text.lines source.toList)[n]? := by
  obtain ⟨extra, hlength, hlines⟩ := hseen
  rw [hlines, List.getElem?_append_right (by omega), hlength, Nat.add_sub_cancel]

end LintMargin.Pragma
