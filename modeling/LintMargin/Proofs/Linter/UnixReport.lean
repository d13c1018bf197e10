import LintMargin.Linter.UnixReport
import LintMargin.Proofs.Text.Fields
import LintMargin.Proofs.Text.Lines

/-!
# Issues that are one line each

A report is read line by line, so every issue in it can be shown on one line. The code that is cut off a
message comes back in the tooltip, so that the entry there ends as the message did.
-/

namespace LintMargin

/-! ### One line -/

theorem newline_not_mem_repr (n : Nat) : '\n' ∉ n.repr.toList :=
  fun hmem => nomatch Text.isDigit_of_mem_repr hmem

theorem newline_not_mem_decimal (n : UInt32) : '\n' ∉ (decimal n).toList :=
  newline_not_mem_repr n.toNat

namespace Issue

/-- An issue whose texts take one line each. -/
structure OneLine (i : Issue) : Prop where
  entry : '\n' ∉ i.tooltipEntry.toList
  /-- A line end would take a carriage return with it. -/
  ending : i.tooltipEntry.toList.getLast? ≠ some '\r'
  reason : '\n' ∉ i.reason.toList

/-- Texts do not depend on the line of an issue, as far as they are about its spot in that line. -/
theorem OneLine.moveUp {i : Issue} (hi : i.OneLine) (lines : UInt32) : (i.moveUp lines).OneLine :=
  ⟨hi.entry, hi.ending, hi.reason⟩

theorem OneLine.statusText {i : Issue} (hi : i.OneLine) : '\n' ∉ i.statusText.toList := by
  simp only [Issue.statusText, String.toList_append, List.mem_append, not_or]
  exact ⟨⟨⟨⟨newline_not_mem_decimal _, by decide⟩, newline_not_mem_decimal _⟩, by decide⟩, hi.reason⟩

end Issue

namespace LineGroup

/-- A tooltip has a line for each issue. -/
theorem lines_tooltipText {g : LineGroup} (hg : ∀ i ∈ g.issues, i.OneLine) :
    Text.lines g.tooltipText.toList = g.issues.map fun i => i.tooltipEntry.toList := by
  have hne : ∀ i : Issue, i.tooltipEntry.toList ≠ [] := by
    intro i hnil
    rw [Issue.tooltipEntry] at hnil
    split at hnil <;> simp at hnil
  rw [tooltipText, String.toList_intercalate, List.map_map]
  refine Text.lines_intercalate ?_ ?_ ?_
  · exact List.forall_mem_map.mpr fun i hi => (hg i hi).entry
  · exact List.forall_mem_map.mpr fun i _ => hne i
  · exact List.forall_mem_map.mpr fun i hi => (hg i hi).ending

end LineGroup

/-! ### What a report says -/

namespace UnixReport

theorem eq_append_of_cutColon {cs before after : List Char} (h : cutColon cs = some (before, after)) :
    cs = before ++ ':' :: after := by
  induction cs generalizing before with
  | nil => cases h
  | cons c rest ih =>
      rw [cutColon] at h
      split at h
      · next hcolon =>
          cases h
          rw [hcolon]
          rfl
      · obtain ⟨⟨inside, behind⟩, hcut, h⟩ := Option.map_eq_some_iff.mp h
        cases h
        exact congrArg (c :: ·) (ih hcut)

theorem eq_append_of_cutOpening {cs inside before : List Char}
    (h : cutOpening cs = some (inside, before)) : cs = inside ++ '(' :: ' ' :: before := by
  induction cs generalizing inside with
  | nil => cases h
  | cons c rest ih =>
      unfold cutOpening at h
      split at h
      · next heq =>
          cases h
          exact heq
      · next heq =>
          cases heq
          obtain ⟨⟨behind, front⟩, hcut, h⟩ := Option.map_eq_some_iff.mp h
          cases h
          exact congrArg (c :: ·) (ih hcut)
      · next heq => cases heq

/-- Nothing is lost of a message when its code is cut off. -/
theorem eq_append_of_splitCode {message reason code : List Char}
    (h : splitCode message = some (reason, code)) :
    message = reason ++ [' ', '('] ++ code ++ [')'] := by
  unfold splitCode at h
  split at h
  · next body hreverse =>
      split at h
      · next inside before hcut =>
          split at h
          · cases h
            have hmessage := congrArg List.reverse hreverse
            rw [List.reverse_reverse, eq_append_of_cutOpening hcut] at hmessage
            simpa using hmessage
          · cases h
      · cases h
  · cases h

/-- The entry in a tooltip has the whole message. -/
theorem tooltipEntry_issueOf (line character : UInt32) (message : List Char) :
    (issueOf line character message).tooltipEntry =
      decimal character ++ ": " ++ String.ofList message := by
  unfold issueOf
  split
  · next reason code hsplit =>
      have hopening : " (" = String.ofList [' ', '('] := rfl
      have hclosing : ")" = String.ofList [')'] := rfl
      rw [eq_append_of_splitCode hsplit]
      simp only [Issue.tooltipEntry, hopening, hclosing, String.ofList_append, String.append_assoc]
  · rfl

theorem reason_issueOf (line character : UInt32) (message : List Char) :
    (issueOf line character message).reason.toList.Sublist message := by
  unfold issueOf
  split
  · next reason code hsplit =>
      rw [eq_append_of_splitCode hsplit, String.toList_ofList, List.append_assoc, List.append_assoc]
      exact List.sublist_append_left _ _
  · rw [String.toList_ofList]

/-- An issue is made of a message, which is part of the line. -/
theorem exists_issueOf_of_parseChars {cs : List Char} {i : Issue} (h : parseChars cs = some i) :
    ∃ line character message, i = issueOf line character (Text.trim message) ∧
      message.Sublist cs ∧ Text.trim message ≠ [] := by
  simp only [parseChars, Option.bind_eq_bind, Option.bind_eq_some_iff] at h
  obtain ⟨⟨file, atLine⟩, hfile, ⟨lineText, atCharacter⟩, hline, ⟨characterText, message⟩, hcharacter,
    line, -, character, -, h⟩ := h
  split at h
  · cases h
  · next hne =>
      cases h
      refine ⟨line, character, message, rfl, ?_, by simpa using hne⟩
      have hatLine : atLine = lineText ++ ':' :: atCharacter := eq_append_of_cutColon hline
      have hatCharacter : atCharacter = characterText ++ ':' :: message :=
        eq_append_of_cutColon hcharacter
      rw [eq_append_of_cutColon hfile, hatLine, hatCharacter]
      have hbehind : ∀ before after : List Char, after.Sublist (before ++ ':' :: after) :=
        fun before after => (List.sublist_cons_self ':' after).trans (List.sublist_append_right _ _)
      exact ((hbehind _ _).trans (hbehind _ _)).trans (hbehind _ _)

theorem oneLine_of_parseChars {cs : List Char} (hcs : '\n' ∉ cs) {i : Issue}
    (h : parseChars cs = some i) : i.OneLine := by
  obtain ⟨line, character, message, rfl, hmessage, hne⟩ := exists_issueOf_of_parseChars h
  have hnewline : '\n' ∉ Text.trim message :=
    fun hmem => hcs (((Text.trim_sublist message).trans hmessage).subset hmem)
  have hlast : (Text.trim message).getLast? ≠ some '\r' := by
    intro hreturn
    cases Text.isBlank_eq_false_of_getLast?_trimEnd hreturn
  constructor
  case entry =>
      simp only [tooltipEntry_issueOf, String.toList_append, String.toList_ofList, List.mem_append,
        not_or]
      exact ⟨⟨newline_not_mem_decimal character, by decide⟩, hnewline⟩
  case ending =>
      rw [tooltipEntry_issueOf, String.toList_append, String.toList_ofList, List.getLast?_append]
      cases hend : (Text.trim message).getLast? with
      | none => exact absurd (List.getLast?_eq_none_iff.mp hend) hne
      | some c => rwa [hend] at hlast
  case reason => exact fun hmem => hnewline ((reason_issueOf line character _).subset hmem)

theorem oneLine_of_mem_parse {report : String} {i : Issue} (h : some i ∈ parse report) :
    i.OneLine := by
  obtain ⟨cs, hcs, hi⟩ := List.mem_map.mp h
  obtain ⟨line, hline, rfl⟩ := List.mem_map.mp (List.mem_of_mem_filter hcs)
  have hnewline := Text.newline_not_mem_of_mem_lines hline
  exact oneLine_of_parseChars (fun hmem => hnewline ((Text.trimEnd_sublist line).subset hmem)) hi

end UnixReport

end LintMargin
