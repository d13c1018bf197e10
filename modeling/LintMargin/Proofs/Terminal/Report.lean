import LintMargin.Proofs.Linter.UnixReport
import LintMargin.Proofs.Session.StatusBar
import LintMargin.Proofs.Session.Stored
import LintMargin.Proofs.Terminal

/-!
# The printout at any time

After every run the printout of a document can be read off its text, the store and the status text, line
by line. Tooltips are numbered upwards in the order of their rows however often they are made anew
(`InOrder`), and no issue that a linter can report breaks its line (`Issue.OneLine`).
-/

namespace LintMargin

universe u

variable {σ : Type u}

/-! ### Rows and lines -/

namespace Issue

/-- Lines count from 1, and rows from 0. -/
theorem toNat_normalizedLine (i : Issue) : i.normalizedLine.toNat = i.row.toNat + 1 := by
  rw [toNat_row, normalizedLine, normalizeLine]
  split
  · next hzero => simp [hzero]
  · next hne =>
      have hpositive : i.line.toNat ≠ 0 := fun h => hne (UInt32.toNat_inj.mp h)
      omega

end Issue

/-- The row of an issue is right before its line. -/
def LineAbove (row : Row) (i : Issue) : Prop :=
  i.normalizedLine.toNat = row.toNat + 1 ∧ row.toNat + 1 < UInt32.size

theorem lineAbove_row (i : Issue) : LineAbove i.row i :=
  ⟨i.toNat_normalizedLine, i.toNat_normalizedLine ▸ i.normalizedLine.toNat_lt⟩

/-! ### The order of the tooltips -/

theorem Renderer.handles_draw_of_ne (r : Renderer) (store : Store) (a : Anchors) {doc d : DocumentId}
    (e : Editor) (hd : d ≠ doc) : (r.draw store a doc e).1.handles d = r.handles d := by
  rw [draw_eq]
  dsimp only
  rw [handles, tooltipGroup_keep, if_neg hd, handles]

namespace Session

/-- Things are numbered as they are made, and the tooltips of each document from top to bottom. -/
structure InOrder (s : Session σ) : Prop where
  manner : s.editor.manner = .plain
  ascending : ∀ doc, (s.renderer.handles doc).Pairwise fun h k => rank h < rank k

theorem InOrder.draw {s : Session σ} (hs : s.InOrder) (doc : DocumentId) : (s.draw doc).InOrder where
  manner := (confined_draw s doc).undisturbed.editor.manner.trans hs.manner
  ascending d := by
    by_cases hd : d = doc
    · subst hd
      exact s.renderer.handles_draw_ascending s.store s.anchors d hs.manner
    · exact (s.renderer.handles_draw_of_ne s.store s.anchors s.editor hd).symm ▸ hs.ascending d

theorem InOrder.updateStatus {s : Session σ} (hs : s.InOrder) : s.updateStatus.InOrder :=
  ⟨hs.manner, hs.ascending⟩

theorem InOrder.move {s t : Session σ} (hmove : Move s t) (hs : s.InOrder) : t.InOrder := by
  cases hmove with
  | aside h => exact ⟨h.manner.trans hs.manner, h.renderer.symm ▸ hs.ascending⟩
  | refresh => exact hs.updateStatus
  | render doc =>
      rw [render_eq]
      exact (hs.draw doc).updateStatus
  | replace doc d =>
      have hstored : InOrder { s with store := s.store.insert doc d } := ⟨hs.manner, hs.ascending⟩
      rw [render_eq]
      exact (hstored.draw doc).updateStatus
  | forget doc =>
      refine InOrder.updateStatus ⟨(confined_forgetDiagnostics s doc).undisturbed.editor.manner.trans hs.manner,
        fun d => ?_⟩
      rw [handles_forgetDiagnostics, Function.update_apply]
      split
      · exact .nil
      · exact hs.ascending d

theorem inOrder_run (sv : Services σ) (services : σ) (settings : Settings) (acts : List (Act σ)) :
    ((start .empty services settings).run sv acts).InOrder := by
  have hstart : InOrder (start .empty services settings) := ⟨rfl, fun _ => .nil⟩
  exact (run_moves sv _ acts).keep (fun _ _ hmove hs => hs.move hmove) hstart

end Session

/-! ### Lines of the printout -/

namespace Terminal

/-- The lines about a row with issues. -/
def groupLines (source : List (List Char)) (entry : Row × LineGroup) : List String :=
  (">" ++ lineNumber (entry.1.toNat + 1) ++ " | " ++
      String.ofList (source[entry.1.toNat]?.getD [])) ::
    entry.2.issues.map fun i => "        " ++ i.tooltipEntry

/-- What is printed below the name of a document: its groups from top to bottom, and the status text. -/
def reportLines (source : List (List Char)) (entries : List (Row × LineGroup))
    (status : Option String) : List String :=
  entries.flatMap (groupLines source) ++ status.toList.map ("status: " ++ ·)

/-- Each line with its end. -/
def printLines (lines : List String) : String := String.join (lines.map (· ++ "\n"))

theorem printLines_append (lines more : List String) :
    printLines (lines ++ more) = printLines lines ++ printLines more := by
  rw [printLines, List.map_append, String.join_append, printLines, printLines]

/-- A group is printed line by line if its issues take one line each. -/
theorem groupText_eq (source : List (List Char)) {entry : Row × LineGroup}
    (hentry : ∀ i ∈ entry.2.issues, i.OneLine) :
    groupText source entry = printLines (groupLines source entry) := by
  have hentries : (Text.lines entry.2.tooltipText.toList).map (fun line =>
      "        " ++ String.ofList line ++ "\n") =
      (entry.2.issues.map fun i => "        " ++ i.tooltipEntry).map (· ++ "\n") := by
    rw [LineGroup.lines_tooltipText hentry, List.map_map, List.map_map]
    simp only [Function.comp_def, String.ofList_toList]
  rw [groupText, hentries, groupLines, printLines, List.map_cons, String.join_cons]

theorem join_map_groupText (source : List (List Char)) {entries : List (Row × LineGroup)}
    (hentries : ∀ entry ∈ entries, ∀ i ∈ entry.2.issues, i.OneLine) :
    String.join (entries.map (groupText source)) =
      printLines (entries.flatMap (groupLines source)) := by
  induction entries with
  | nil => rfl
  | cons entry rest ih =>
      rw [List.forall_mem_cons] at hentries
      rw [List.map_cons, String.join_cons, List.flatMap_cons, printLines_append,
        groupText_eq source hentries.1, ih hentries.2]

theorem newline_not_mem_lineNumber (n : Nat) : '\n' ∉ (lineNumber n).toList := by
  rw [lineNumber, String.toList_append, String.toList_ofList, List.mem_append, not_or]
  refine ⟨fun hmem => ?_, newline_not_mem_repr n⟩
  cases List.eq_of_mem_replicate hmem

/-- No line of a printout is broken. -/
theorem newline_not_mem_reportLines {text : List Char} {entries : List (Row × LineGroup)}
    {status : Option String} (hentries : ∀ entry ∈ entries, ∀ i ∈ entry.2.issues, i.OneLine)
    (hstatus : ∀ shown ∈ status, '\n' ∉ shown.toList) {line : String}
    (hline : line ∈ reportLines (Text.lines text) entries status) : '\n' ∉ line.toList := by
  have hsource : ∀ n : Nat, '\n' ∉ (Text.lines text)[n]?.getD [] := by
    intro n
    cases hn : (Text.lines text)[n]? with
    | none => exact List.not_mem_nil
    | some l => exact Text.newline_not_mem_of_mem_lines (List.mem_of_getElem? hn)
  rcases List.mem_append.mp hline with hline | hline
  · obtain ⟨entry, hentry, hline⟩ := List.mem_flatMap.mp hline
    rcases List.mem_cons.mp hline with rfl | hline
    · simp only [String.toList_append, String.toList_ofList, List.mem_append, not_or]
      exact ⟨⟨⟨by decide, newline_not_mem_lineNumber _⟩, by decide⟩, hsource _⟩
    · obtain ⟨i, hi, rfl⟩ := List.mem_map.mp hline
      rw [String.toList_append, List.mem_append, not_or]
      exact ⟨by decide, (hentries entry hentry i hi).entry⟩
  · obtain ⟨shown, hshown, rfl⟩ := List.mem_map.mp hline
    rw [String.toList_append, List.mem_append, not_or]
    exact ⟨by decide, hstatus shown (Option.mem_toList.mp hshown)⟩

/-- The printout of an open document is made of its name, its groups from top to bottom and the status
text. -/
theorem report_eq {s : Session σ} (hs : s.Consistent) (horder : s.InOrder)
    (hstore : s.store.Each fun _ i => i.OneLine) {doc : DocumentId} {d : Document}
    (hdoc : s.editor.documents.get? doc = some d) :
    report s.editor doc = (d.path.getD ⟨""⟩).text ++ ":\n" ++
      printLines (reportLines (Text.lines d.text.toList) (s.store.diagnostics doc).entries
        s.editor.status) := by
  rw [report, hdoc]
  dsimp only
  rw [map_entryText_tooltipsOf hs (horder.ascending doc),
    join_map_groupText _ fun entry hentry => hstore.of_mem_entries hentry, reportLines,
    printLines_append, ← String.append_assoc]
  congr 1
  cases s.editor.status with
  | none => rfl
  | some text => simp [printLines]

end Terminal

/-! ### After every run -/

/-- All that a linter reports was read from lines of text. -/
def Services.ReportsUnix (sv : Services σ) : Prop :=
  ∀ flavor source config globals x report,
    (sv.lint flavor source config globals x).1 = .ok report → ∃ text, report = UnixReport.parse text

/-- Programs that serve as linters are read line by line. -/
theorem reportsUnix_ofFiles (t : FileTree) (run : Runner) (programs : LinterPrograms) :
    (Services.ofFiles t run programs).ReportsUnix := by
  intro flavor source config globals x report hreport
  simp only [Services.ofFiles, Invocation.lint] at hreport
  split at hreport
  · cases hreport
  · rw [Invocation.report] at hreport
    split at hreport
    · cases hreport
      exact ⟨_, rfl⟩
    · cases hreport

theorem Services.ReportsUnix.reports {sv : Services σ} (hsv : sv.ReportsUnix) :
    sv.Reports fun row i => LineAbove row i ∧ i.OneLine := by
  intro flavor source config globals x i hi lines
  cases hanswer : (sv.lint flavor source config globals x).1 with
  | error e =>
      rw [hanswer] at hi
      cases hi
  | ok report =>
      rw [hanswer] at hi
      obtain ⟨text, rfl⟩ := hsv flavor source config globals x report hanswer
      exact ⟨lineAbove_row _, (UnixReport.oneLine_of_mem_parse hi).moveUp lines⟩

namespace Terminal

/-- After any run of a session in a terminal, with linters whose reports are read from text, the printout
of an open document has a line with its path and then the lines of `reportLines`, none of which is broken:
for every row with a group, in ascending order, the text of the row and the issues of its group, and the
status text. The number that is printed for a row is the line of each of its issues, and no report and no
number of added lines makes it too great. -/
theorem report_shows_store {sv : Services σ} (hsv : sv.ReportsUnix) (services : σ)
    (settings : Settings) (acts : List (Act σ)) :
    let s := (Session.start .empty services settings).run sv acts
    (∀ doc text path grammar,
      s.editor.documents.get? doc = some ⟨text, some path, grammar⟩ →
      let entries := (s.store.diagnostics doc).entries
      let lines := reportLines (Text.lines text.toList) entries s.editor.status
      report s.editor doc = path.text ++ ":\n" ++ printLines lines ∧
      (∀ line ∈ lines, '\n' ∉ line.toList) ∧
      (entries.map Prod.fst).Pairwise (· < ·) ∧
      ∀ entry ∈ entries, ∀ i ∈ entry.2.issues, LineAbove entry.1 i) ∧
    ∀ lines report row g, (Report.moveUp lines report).aggregate.get? row = some g →
      ∀ i ∈ g.issues, LineAbove row i := by
  intro s
  have hs : s.Consistent := Session.Reachable.consistent ⟨.plain, none, services, settings, acts, rfl⟩
  have hstore := Session.each_run (s := .start .empty services settings) hsv.reports Store.each_empty acts
  have hagrees : s.Agrees := (Session.run_moves sv _ acts).keep (fun _ _ hmove h => h.move hmove)
    (Session.agrees_start .plain services settings)
  refine ⟨fun doc text path grammar hdoc => ?_, fun lines report => ?_⟩
  · have hentries : ∀ entry ∈ (s.store.diagnostics doc).entries, ∀ i ∈ entry.2.issues,
        LineAbove entry.1 i ∧ i.OneLine := fun entry hentry => hstore.of_mem_entries hentry
    have hstatus : ∀ shown ∈ s.editor.status, '\n' ∉ shown.toList := by
      intro shown hshown
      rw [hagrees.status, Option.mem_def, Option.map_eq_some_iff] at hshown
      obtain ⟨⟨owner, i⟩, hdisplayed, rfl⟩ := hshown
      obtain ⟨g, hg, hfirst⟩ := hagrees.stored owner i hdisplayed
      exact (hstore owner _ g hg i (hfirst ▸ g.first_mem)).2.statusText
    refine ⟨?_, ?_, ?_, fun entry hentry i hi => (hentries entry hentry i hi).1⟩
    · exact report_eq hs (Session.inOrder_run sv services settings acts)
        (fun doc row g hg i hi => (hstore doc row g hg i hi).2) hdoc
    · exact fun line hline => newline_not_mem_reportLines
        (fun entry hentry i hi => (hentries entry hentry i hi).2) hstatus hline
    · exact (s.store.diagnostics doc).keys_ascending.imp fun h => UInt32.lt_iff_toNat_lt.mpr h
  · exact Diagnostics.each_aggregate fun i _ => lineAbove_row i

end Terminal

/-- Services that exclude nothing, know no configuration and hand on what a program wrote. -/
def Services.piping : Services String where
  isIgnored _ written := (false, written)
  resolve _ written := (.empty, written)
  forget written := written
  lint _ _ _ _ written := (.ok (UnixReport.parse written), written)

namespace Terminal

/-- A file with an issue on its second line. -/
def piped : Session String :=
  (Session.start .empty "app.js:2:3: Missing semicolon. (W033)\n" {}).run .piping
    [.arranged ⟨SortedMap.insert ∅ ⟨7⟩ ⟨"a;\nb", some ⟨"app.js"⟩, "source.js"⟩, some ⟨7⟩, ∅⟩,
      .passed ⟨7⟩]

theorem report_shows_store_piped :
    Services.piping.ReportsUnix ∧ report piped.editor ⟨7⟩ = "app.js" ++ ":\n" ++ printLines
      [">    2 | b", "        3: Missing semicolon. (W033)", "status: 2:3 Missing semicolon."] := by
  have hpiping : Services.piping.ReportsUnix := by
    rintro _ _ _ _ written _ ⟨⟩
    exact ⟨written, rfl⟩
  have hdoc : piped.editor.documents.get? ⟨7⟩ =
      some ⟨"a;\nb", some ⟨"app.js"⟩, "source.js"⟩ := by decide +kernel
  have hreport := ((report_shows_store hpiping _ {} _).1 ⟨7⟩ _ _ _ hdoc).1
  have hlines : reportLines (Text.lines "a;\nb".toList) (piped.store.diagnostics ⟨7⟩).entries
      piped.editor.status =
      [">    2 | b", "        3: Missing semicolon. (W033)", "status: 2:3 Missing semicolon."] := by
    decide +kernel
  exact ⟨hpiping, hreport.trans (congrArg _ (congrArg printLines hlines))⟩

end Terminal

end LintMargin
