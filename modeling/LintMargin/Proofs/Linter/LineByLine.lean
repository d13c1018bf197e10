import LintMargin.Proofs.Linter.ReportLine
import Mathlib.Logic.Relation

/-!
# Reports line by line

A report says what its lines say, one after the other, and blank lines say nothing. So reports that are put
one below the other are read one after the other, and neither blanks at the end of a line nor blank lines
nor the kind of line ends make a difference.
-/

namespace LintMargin.UnixReport

variable {cs after : List Char}

/-! ### One line -/

/-- What a line adds to a report: an entry, unless it is blank. -/
def entryOf (line : List Char) : Report :=
  if line.all Text.isBlank then [] else [parseChars line]

theorem cutColon_eq_none_iff : cutColon cs = none ↔ ':' ∉ cs := by
  constructor
  · intro hnone hmem
    obtain ⟨before, rest, rfl, hbefore⟩ := List.eq_append_cons_of_mem hmem
    rw [cutColon_eq_some_iff.mpr ⟨rfl, hbefore⟩] at hnone
    cases hnone
  · intro hcolon
    refine Option.eq_none_iff_forall_ne_some.mpr fun (before, rest) hsome => hcolon ?_
    rw [(cutColon_eq_some_iff.mp hsome).1]
    simp

theorem cutColon_append (hafter : ':' ∉ after) :
    cutColon (cs ++ after) = (cutColon cs).map fun (before, rest) => (before, rest ++ after) := by
  cases hcut : cutColon cs with
  | none =>
      have hboth : ':' ∉ cs ++ after := by simp [cutColon_eq_none_iff.mp hcut, hafter]
      exact cutColon_eq_none_iff.mpr hboth
  | some cut =>
      obtain ⟨before, rest⟩ := cut
      obtain ⟨rfl, hbefore⟩ := cutColon_eq_some_iff.mp hcut
      exact cutColon_eq_some_iff.mpr ⟨by simp, hbefore⟩

theorem colon_not_mem_of_blank (hafter : ∀ c ∈ after, Text.isBlank c = true) : ':' ∉ after :=
  fun hmem => nomatch hafter ':' hmem

/-- Blanks behind a line are behind its message, or behind a field that is missing. -/
theorem parseChars_append (hafter : ∀ c ∈ after, Text.isBlank c = true) :
    parseChars (cs ++ after) = parseChars cs := by
  have hcolon := colon_not_mem_of_blank hafter
  unfold parseChars
  rw [cutColon_append hcolon]
  cases cutColon cs with
  | none => rfl
  | some file =>
      simp only [Option.map_some, Option.bind_eq_bind, Option.bind_some, cutColon_append hcolon]
      cases cutColon file.2 with
      | none => rfl
      | some line =>
          simp only [Option.map_some, Option.bind_some, cutColon_append hcolon]
          cases cutColon line.2 with
          | none => rfl
          | some character => simp only [Option.map_some, Option.bind_some, Text.trim_append hafter]

theorem entryOf_append (hafter : ∀ c ∈ after, Text.isBlank c = true) :
    entryOf (cs ++ after) = entryOf cs := by
  have hall : after.all Text.isBlank = true := List.all_eq_true.mpr hafter
  rw [entryOf, List.all_append, hall, Bool.and_true, parseChars_append hafter, entryOf]

theorem entryOf_eq_nil (hcs : ∀ c ∈ cs, Text.isBlank c = true) : entryOf cs = [] :=
  if_pos (List.all_eq_true.mpr hcs)

theorem entryOf_closeLine (line : List Char) : entryOf (Text.closeLine line.reverse) = entryOf line := by
  obtain ⟨rest, hline, hrest⟩ := Text.exists_eq_closeLine_append line
  conv_rhs => rw [hline]
  refine (entryOf_append fun c hc => ?_).symm
  rcases hrest with rfl | rfl
  · cases hc
  · cases List.mem_singleton.mp hc
    rfl

/-! ### One line after the other -/

/-- What a text says, line by line. -/
def parseText (cs : List Char) : Report := (Text.lines cs).flatMap entryOf

theorem flatMap_entryOf (lines : List (List Char)) :
    lines.flatMap entryOf = (lines.filter fun line => !line.all Text.isBlank).map parseChars := by
  induction lines with
  | nil => rfl
  | cons line rest ih =>
      rw [List.flatMap_cons, ih, entryOf, List.filter_cons]
      cases line.all Text.isBlank <;> rfl

/-- Blanks at the end are taken off a line twice, which makes no difference. -/
theorem parse_eq (report : String) : parse report = parseText report.toList := by
  rw [parse, parseText, flatMap_entryOf, List.filter_map, List.map_map]
  have hblank : ∀ line : List Char,
      ((fun line => decide (line ≠ [])) ∘ Text.trimEnd) line = !line.all Text.isBlank := by
    intro line
    rw [Bool.eq_iff_iff, Function.comp_apply, decide_eq_true_eq, Bool.not_eq_true',
      ← Bool.not_eq_true, List.all_eq_true, ne_eq, Text.trimEnd_eq_nil_iff]
  rw [List.filter_congr fun line _ => hblank line]
  refine List.map_congr_left fun line _ => ?_
  obtain ⟨after, hline, hafter⟩ := Text.exists_trimEnd line
  conv_rhs => rw [hline, parseChars_append hafter]
  rfl

theorem parseText_of_not_mem (hcs : '\n' ∉ cs) : parseText cs = entryOf cs := by
  cases cs with
  | nil => rfl
  | cons c rest =>
      rw [parseText, Text.lines_of_not_mem hcs (List.cons_ne_nil c rest), List.flatMap_singleton]

theorem parseText_line {line : List Char} (hline : '\n' ∉ line) (rest : List Char) :
    parseText (line ++ '\n' :: rest) = entryOf line ++ parseText rest := by
  rw [parseText, Text.lines_append_newline hline, List.flatMap_cons, entryOf_closeLine, parseText]

/-- A newline takes nothing from the texts before and after it. -/
theorem parseText_append_newline (early late : List Char) :
    parseText (early ++ '\n' :: late) = parseText early ++ parseText late := by
  induction early using Text.lines_induction with
  | hlast line hline => rw [parseText_line hline, parseText_of_not_mem hline]
  | hfirst line rest hline ih =>
      rw [List.append_assoc, List.cons_append, parseText_line hline, parseText_line hline, ih,
        List.append_assoc]

theorem parseText_append_of_not_mem (hafter : ∀ c ∈ after, Text.isBlank c = true)
    (hline : '\n' ∉ after) : parseText (cs ++ after) = parseText cs := by
  induction cs using Text.lines_induction with
  | hlast cs hcs =>
      have hboth : '\n' ∉ cs ++ after := by simp [hcs, hline]
      rw [parseText_of_not_mem hboth, parseText_of_not_mem hcs, entryOf_append hafter]
  | hfirst first rest _ ih =>
      rw [List.append_assoc, List.cons_append, parseText_append_newline, parseText_append_newline, ih]

theorem parseText_of_blank (hcs : ∀ c ∈ cs, Text.isBlank c = true) : parseText cs = [] := by
  induction cs using Text.lines_induction with
  | hlast cs hline => rw [parseText_of_not_mem hline, entryOf_eq_nil hcs]
  | hfirst line rest hline ih =>
      obtain ⟨hfirst, hrest⟩ := List.forall_mem_append.mp hcs
      rw [parseText_append_newline, parseText_of_not_mem hline, entryOf_eq_nil hfirst,
        ih (List.forall_mem_cons.mp hrest).2]
      rfl

/-- Blanks at the end of a text say nothing, even if they are on more lines. -/
theorem parseText_append (hafter : ∀ c ∈ after, Text.isBlank c = true) :
    parseText (cs ++ after) = parseText cs := by
  by_cases hline : '\n' ∈ after
  · obtain ⟨first, rest, rfl, hfirst⟩ := List.eq_append_cons_of_mem hline
    obtain ⟨hblank, hrest⟩ := List.forall_mem_append.mp hafter
    rw [← List.append_assoc, parseText_append_newline, parseText_append_of_not_mem hblank hfirst,
      parseText_of_blank (List.forall_mem_cons.mp hrest).2, List.append_nil]
  · exact parseText_append_of_not_mem hafter hline

/-! ### Changes that make no difference -/

inductive LineEnd : List Char → Prop where
  | newline : LineEnd ['\n']
  | withReturn : LineEnd ['\r', '\n']

variable {lineEnd : List Char}

theorem parseText_append_lineEnd (hend : LineEnd lineEnd) (early late : List Char) :
    parseText (early ++ (lineEnd ++ late)) = parseText early ++ parseText late := by
  cases hend with
  | newline => exact parseText_append_newline early late
  | withReturn =>
      have hreturn : parseText (early ++ ['\r']) = parseText early :=
        parseText_append (List.forall_mem_singleton.mpr rfl)
      have hsame : early ++ (['\r', '\n'] ++ late) = early ++ ['\r'] ++ '\n' :: late := by simp
      rw [hsame, parseText_append_newline, hreturn]

/-- The second text is the first one with one more blank line, with more blanks at the end of a line, or
with another line end. -/
inductive Retouched : List Char → List Char → Prop where
  | blankLine {before blank lineEnd after} (hplace : before = [] ∨ before.getLast? = some '\n')
      (hblank : ∀ c ∈ blank, Text.isBlank c = true) (hend : LineEnd lineEnd) :
      Retouched (before ++ after) (before ++ (blank ++ (lineEnd ++ after)))
  /-- The blank line comes last. -/
  | lastLine {text lineEnd blank} (hend : LineEnd lineEnd)
      (hblank : ∀ c ∈ blank, Text.isBlank c = true) :
      Retouched text (text ++ (lineEnd ++ blank))
  | blanks {before blank lineEnd after} (hblank : ∀ c ∈ blank, Text.isBlank c = true)
      (hend : LineEnd lineEnd) :
      Retouched (before ++ (lineEnd ++ after)) (before ++ (blank ++ (lineEnd ++ after)))
  /-- The line is the last one and has no line end. -/
  | lastBlanks {text blank} (hblank : ∀ c ∈ blank, Text.isBlank c = true) :
      Retouched text (text ++ blank)
  | lineEnd {before lineEnd other after} (hend : LineEnd lineEnd) (hother : LineEnd other) :
      Retouched (before ++ (lineEnd ++ after)) (before ++ (other ++ after))

theorem Retouched.parseText_eq {cs ds : List Char} (h : Retouched cs ds) :
    parseText cs = parseText ds := by
  cases h with
  | @blankLine before blank lineEnd after hplace hblank hend =>
      have hrest : parseText (blank ++ (lineEnd ++ after)) = parseText after := by
        rw [parseText_append_lineEnd hend, parseText_of_blank hblank, List.nil_append]
      rcases hplace with rfl | hlast
      · exact hrest.symm
      · obtain ⟨front, rfl⟩ := List.getLast?_eq_some_iff.mp hlast
        simp only [List.append_assoc, List.singleton_append, parseText_append_newline, hrest]
  | lastLine hend hblank =>
      rw [parseText_append_lineEnd hend, parseText_of_blank hblank, List.append_nil]
  | blanks hblank hend =>
      rw [parseText_append_lineEnd hend, ← List.append_assoc, parseText_append_lineEnd hend,
        parseText_append hblank]
  | lastBlanks hblank => exact (parseText_append hblank).symm
  | lineEnd hend hother => rw [parseText_append_lineEnd hend, parseText_append_lineEnd hother]

/-- Any number of such changes, made or taken back, leave what a text says. -/
theorem parseText_eq_of_retouched {cs ds : List Char} (h : Relation.EqvGen Retouched cs ds) :
    parseText cs = parseText ds := by
  induction h with
  | rel _ _ hchange => exact hchange.parseText_eq
  | refl _ => rfl
  | symm _ _ _ ih => exact ih.symm
  | trans _ _ _ _ _ ihfirst ihsecond => exact ihfirst.trans ihsecond

/-! ### The issues in a report -/

/-- An issue that a line reports can be written again. -/
theorem Reported.writable {i : Issue} (h : Reported cs i) : Writable i := by
  obtain ⟨-, -, -, -, -, text, ⟨-, hfirst, hlast⟩, hne, hsays⟩ := h
  rcases says_iff.mp hsays with ⟨reason, code, hcode, rfl, hreason, hi⟩ | ⟨hplain, hreason, hi⟩
  · have hnonempty : reason ≠ [] := by
      rintro rfl
      cases hfirst ' ' rfl
    constructor
    case reason => simpa [hreason] using hnonempty
    case first =>
        intro c hc
        rw [hreason, String.toList_ofList] at hc
        refine hfirst c ?_
        rw [coded, List.append_assoc, List.append_assoc, List.head?_append_of_ne_nil _ hnonempty, hc]
    case code =>
        intro d hd
        obtain rfl := Option.some.inj (hi.symm.trans hd)
        rwa [String.toList_ofList]
    case last => simp [hi]
    case plain => simp [hi]
  · constructor
    case reason => simpa [hreason] using hne
    case first => simpa [hreason] using hfirst
    case code => simp [hi]
    case last => simpa [hreason] using fun _ => hlast
    case plain => simpa [hreason] using fun _ => hplain

theorem IsCode.newline_not_mem {code : List Char} (h : IsCode code) : '\n' ∉ code := by
  obtain ⟨kind, digits, rfl, hkind, -, hdigits⟩ := h
  rw [List.mem_cons, not_or]
  refine ⟨?_, fun hmem => nomatch hdigits '\n' hmem⟩
  rintro rfl
  revert hkind
  decide

theorem writable_of_mem_parse {report : String} {i : Issue} (h : some i ∈ parse report) :
    Writable i := by
  rw [parse_eq, parseText, flatMap_entryOf] at h
  obtain ⟨line, -, hi⟩ := List.mem_map.mp h
  exact (parseChars_eq_some_iff.mp hi).writable

/-- A report has an entry for each line that is not blank, which is what that line is read as; reports one
below the other are read one after the other; and neither blank lines nor blanks at the ends of lines nor
the kind of line ends make a difference. The texts of its issues take one line each, no reason is empty or
begins with a blank, and one without a code does not end with a blank. -/
theorem report_line_by_line :
    (∀ early late, parse (early ++ "\n" ++ late) = parse early ++ parse late) ∧
    (∀ report, parse report =
      ((Text.lines report.toList).filter fun line => !line.all Text.isBlank).map fun line =>
        parseLine (String.ofList line)) ∧
    (∀ report other, Relation.EqvGen Retouched report.toList other.toList →
      parse report = parse other) ∧
    ∀ report i, some i ∈ parse report →
      ('\n' ∉ i.reason.toList ∧ ∀ code, i.code = some code → '\n' ∉ code.toList) ∧
      i.reason ≠ "" ∧ (∀ c, i.reason.toList.head? = some c → Text.isBlank c = false) ∧
      (i.code = none → ∀ c, i.reason.toList.getLast? = some c → Text.isBlank c = false) := by
  refine ⟨fun early late => ?_, fun report => ?_, fun report other h => ?_, fun report i h => ?_⟩
  · have htext : (early ++ "\n" ++ late).toList = early.toList ++ '\n' :: late.toList := by simp
    rw [parse_eq, htext, parseText_append_newline, ← parse_eq, ← parse_eq]
  · rw [parse_eq, parseText, flatMap_entryOf]
    refine List.map_congr_left fun line _ => ?_
    rw [parseLine, String.toList_ofList]
  · rw [parse_eq, parse_eq, parseText_eq_of_retouched h]
  · have hi := writable_of_mem_parse h
    exact ⟨⟨(oneLine_of_mem_parse h).reason, fun code hcode => (hi.code code hcode).newline_not_mem⟩,
      hi.reason, hi.first, hi.last⟩

/-- An issue and a summary, with a blank behind the issue, a return in its line end and a blank line below
it. -/
theorem report_line_by_line_spaced :
    let report := "stdin:1:2: a.\n1 error"
    let spaced := "stdin:1:2: a. \r\n\t\n1 error"
    Relation.EqvGen Retouched report.toList spaced.toList ∧ parse report = parse spaced ∧
      parse report = parse "stdin:1:2: a." ++ parse "1 error" ∧
      parse report = [some ⟨1, 2, "a.", none⟩, none] := by
  intro report spaced
  let issue := "stdin:1:2: a.".toList
  let summary := "1 error".toList
  have hblanks : Retouched (issue ++ (['\n'] ++ summary)) (issue ++ ([' '] ++ (['\n'] ++ summary))) :=
    .blanks (List.forall_mem_singleton.mpr rfl) .newline
  have hlineEnd : Retouched (issue ++ [' '] ++ (['\n'] ++ summary))
      (issue ++ [' '] ++ (['\r', '\n'] ++ summary)) :=
    .lineEnd .newline .withReturn
  have hblankLine : Retouched (issue ++ [' ', '\r', '\n'] ++ summary)
      (issue ++ [' ', '\r', '\n'] ++ (['\t'] ++ (['\n'] ++ summary))) :=
    .blankLine (.inr rfl) (List.forall_mem_singleton.mpr rfl) .newline
  have hfirst : issue ++ (['\n'] ++ summary) = report.toList := by decide
  have hlast : issue ++ [' ', '\r', '\n'] ++ (['\t'] ++ (['\n'] ++ summary)) = spaced.toList := by decide
  have hspaced : Relation.EqvGen Retouched report.toList spaced.toList := by
    rw [← hfirst, ← hlast]
    exact ((Relation.EqvGen.rel _ _ hblanks).trans _ _ _ (.rel _ _ hlineEnd)).trans _ _ _
      (.rel _ _ hblankLine)
  obtain ⟨happend, -, hsame, -⟩ := report_line_by_line
  exact ⟨hspaced, hsame report spaced hspaced, happend "stdin:1:2: a." "1 error", by decide⟩

end LintMargin.UnixReport
