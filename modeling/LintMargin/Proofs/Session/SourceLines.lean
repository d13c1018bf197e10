import LintMargin.Proofs.Diagnostics
import LintMargin.Proofs.Linter.Pragma
import LintMargin.Proofs.Session.Relint

/-!
# Issues and the lines they are about

A pragma that is put in front of a text moves every line that the linter counts. `Reported` says where an
issue has to be kept so that its row is the line the linter saw, and `issues_on_source_lines` that a pass
keeps all issues so.
-/

namespace LintMargin

universe u

/-- Where an issue of a text belongs that was handed to the linter with lines in front of it. -/
structure Reported (source : String) (seen : Pragma.Prepared) (i : Issue) (row : Row) : Prop where
  /-- An issue below the added lines is on the row of its line. -/
  below : seen.addedLines < i.line → row.toNat + seen.addedLines.toNat + 1 = i.line.toNat
  /-- That row of the text is the very line that the linter saw. -/
  sameLine : seen.addedLines < i.line → ∀ line,
    (Text.lines seen.source.toList)[i.line.toNat - 1]? = some line →
      (Text.lines source.toList)[row.toNat]? = some line
  /-- An issue in the added lines or above all is on the first row. -/
  above : i.line ≤ seen.addedLines → row = 0

theorem reported_moveUp {source : String} {seen : Pragma.Prepared} (hseen : seen.Holds source)
    (i : Issue) : Reported source seen i (i.moveUp seen.addedLines).row := by
  have hrow : (i.moveUp seen.addedLines).row.toNat =
      i.line.toNat - seen.addedLines.toNat - 1 := by
    rw [Issue.toNat_row, Issue.moveUp, toNat_monus]
  have hbelow : seen.addedLines < i.line →
      (i.moveUp seen.addedLines).row.toNat + seen.addedLines.toNat + 1 = i.line.toNat := by
    intro hline
    rw [UInt32.lt_iff_toNat_lt] at hline
    omega
  refine ⟨hbelow, fun hline line hsaw => ?_, fun hline => ?_⟩
  · have hindex := hbelow hline
    rw [← hseen.getElem?, ← hsaw]
    congr 1
    omega
  · rw [UInt32.le_iff_toNat_le] at hline
    rw [← UInt32.toNat_inj, hrow, UInt32.toNat_zero]
    omega

namespace Session

variable {σ : Type u}

/-- A text is changed for the linter only where JSX is linted in a JSX document. -/
theorem prepare_snd (settings : Settings) (d : Document) :
    (prepare settings d).2 =
      if settings.supportLintingJsx ∧ isJsxGrammar d.grammar then Pragma.prepare d.text
      else .same d.text := by
  unfold prepare
  cases settings.supportLintingJsx <;> cases isJsxGrammar d.grammar <;> rfl

theorem holds_prepare (settings : Settings) (d : Document) : (prepare settings d).2.Holds d.text := by
  rw [prepare_snd]
  split
  · exact Pragma.holds_prepare d.text
  · exact Pragma.holds_same d.text

/-- Preparing a text for the linter puts at most one line in front of it, and does so only once. After any
run, a pass that lints a document asks one linter once, about the prepared text, and stores every issue of
the answer on the row of the line that it is about. -/
theorem issues_on_source_lines (sv : Services σ) :
    (∀ source : String,
      ((Pragma.prepare source).addedLines = 0 ∨ (Pragma.prepare source).addedLines = 1) ∧
      (Pragma.prepare source).Holds source ∧
      Pragma.prepare (Pragma.prepare source).source = .same (Pragma.prepare source).source) ∧
    ∀ (s : Session σ) (doc : DocumentId) (rows : Nat), Reachable sv s →
      (s.runPass sv doc).1 = .linted rows →
      ∃ d calls, s.editor.documents.get? doc = some d ∧
        let config := (s.lookUp sv d).1
        let flavor := if s.settings.supportLintingJsx then Flavor.jsx else Flavor.plain
        let seen := if s.settings.supportLintingJsx ∧ isJsxGrammar d.grammar then
          Pragma.prepare d.text else .same d.text
        let answer := (sv.lint flavor seen.source config config.globals?
          (s.lookUp sv d).2.services).1
        let t := (s.runPass sv doc).2
        t.editor.journal = s.editor.journal ++ calls ∧
        calls.filter Call.isLint = [.lint flavor seen.source config.options config.globals?] ∧
        ∀ i, some i ∈ Report.ofAnswer answer →
          ∃ row g, t.store.group? doc row = some g ∧ i.moveUp seen.addedLines ∈ g.issues ∧
            Reported d.text seen i row := by
  constructor
  · intro source
    exact ⟨Pragma.addedLines_prepare source, Pragma.holds_prepare source,
      Pragma.prepare_prepare source⟩
  · intro s doc rows hs hlinted
    obtain ⟨d, hdoc, hstore, -, made, -, hjournal, -⟩ := runPass_redrawn hs.consistent hlinted
    have hflavor : (prepare s.settings d).1 = if s.settings.supportLintingJsx then .jsx else .plain := by
      unfold prepare
      split <;> rfl
    refine ⟨d, _, hdoc, hjournal, ?_, ?_⟩
    · rw [filter_isLint_requests, lintCall, hflavor, prepare_snd]
    · intro i hi
      rw [← prepare_snd, ← hflavor] at hi
      rw [← prepare_snd]
      have hmoved : some (i.moveUp (prepare s.settings d).2.addedLines) ∈
          Report.moveUp (prepare s.settings d).2.addedLines (.ofAnswer
            ((s.lookUp sv d).2.linterAnswer sv d (s.lookUp sv d).1)) := by
        refine List.mem_map.mpr ⟨some i, ?_, rfl⟩
        rwa [linterAnswer, settings_lookUp]
      obtain ⟨g, hg, hmem⟩ := Diagnostics.exists_get?_aggregate hmoved
      refine ⟨_, g, ?_, hmem, reported_moveUp (holds_prepare s.settings d) i⟩
      rw [hstore, Store.group?, Store.diagnostics, SortedMap.get?_insert_self]
      exact hg

/-- A JSX document without a pragma, about to have an issue on its second line. -/
def declaring : Session Report :=
  (start .empty [some ⟨3, 5, "second", none⟩] { supportLintingJsx := true }).run .reporting
    [.arranged ⟨SortedMap.insert ∅ ⟨7⟩ ⟨"<a/>\n<b/>", none, "source.jsx"⟩, some ⟨7⟩, ∅⟩]

theorem issues_on_source_lines_declaring :
    Reachable .reporting declaring ∧ (declaring.runPass .reporting ⟨7⟩).1 = .linted 1 ∧
      ∃ row g, (declaring.runPass .reporting ⟨7⟩).2.store.group? ⟨7⟩ row = some g ∧
        ⟨2, 5, "second", none⟩ ∈ g.issues ∧
        Reported "<a/>\n<b/>" (Pragma.prepare "<a/>\n<b/>") ⟨3, 5, "second", none⟩ row := by
  have hreachable : Reachable .reporting declaring := ⟨.plain, none, _, _, _, rfl⟩
  have hlinted : (declaring.runPass .reporting ⟨7⟩).1 = .linted 1 := by decide
  obtain ⟨d, -, hdoc, -, -, hstored⟩ :=
    (issues_on_source_lines .reporting).2 declaring ⟨7⟩ 1 hreachable hlinted
  have hopen : declaring.editor.documents.get? ⟨7⟩ =
      some ⟨"<a/>\n<b/>", none, "source.jsx"⟩ := by decide
  obtain rfl := Option.some.inj (hopen.symm.trans hdoc)
  obtain ⟨row, g, hg, hmem, hreported⟩ := hstored ⟨3, 5, "second", none⟩ (by decide)
  exact ⟨hreachable, hlinted, row, g, hg, hmem, hreported⟩

end Session

end LintMargin
