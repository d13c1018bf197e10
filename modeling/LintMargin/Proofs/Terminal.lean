import LintMargin.Proofs.Session.Desk
import LintMargin.Proofs.Session.Display
import LintMargin.Terminal

/-!
# The printout of a document

What the terminal prints of a document that was just drawn can be read off its text and its diagnostics:
each row with issues has a line with a mark, followed by its issues, and the status text is about the
first issue of all. The tooltips come in the order of their rows because they were made in that order and
the terminal numbers what it makes.
-/

namespace LintMargin

universe u

/-! ### The order of the tooltips -/

theorem Editor.liveTooltips_ascending (e : Editor) (doc : DocumentId) :
    (e.liveTooltips doc).Pairwise fun a b => rank a.1 < rank b.1 := by
  refine e.tooltips.ascending.filterMap _ ?_
  rintro ⟨h, d, t⟩ ⟨h', d', t'⟩ hlt x hx y hy
  simp only [Option.ite_none_right_eq_some] at hx hy
  rw [← Option.some.inj hx.2, ← Option.some.inj hy.2]
  exact hlt

namespace Renderer

/-- Where things are numbered as they are made, the tooltips of some groups are numbered from top to
bottom. -/
theorem exists_foldl_drawGroup (doc : DocumentId) (g : SubscriptionGroup Handle) (a : Anchors)
    {e : Editor} (hmanner : e.manner = .plain) (entries : List (Row × LineGroup)) :
    ∃ made : List Handle, (entries.foldl (drawGroup doc) (g, a, e)).1 = g ++ made.map .live ∧
      made.Pairwise (fun h k => rank h < rank k) ∧ ∀ h ∈ made, e.issued < rank h := by
  induction entries generalizing g a e with
  | nil => exact ⟨[], by simp, .nil, by simp⟩
  | cons entry rest ih =>
      have hplaced := (a.offMargin_provide doc entry.1 e).manner.trans hmanner
      have hissued := (a.offMargin_provide doc entry.1 e).issued
      rw [List.foldl_cons, drawGroup_eq]
      generalize a.provide doc entry.1 e = placed at hplaced hissued
      have hnumber : rank placed.2.freshHandle = placed.2.issued + 1 := by
        rw [Editor.freshHandle, hplaced]
        rfl
      obtain ⟨made, hfold, hascending, habove⟩ := ih (g.add (.live placed.2.freshHandle)) placed.1
        (e := (placed.2.showTooltip doc (Tooltip.ofGroup entry)).2) hplaced
      change ∀ h ∈ made, placed.2.issued + 1 < rank h at habove
      refine ⟨placed.2.freshHandle :: made, ?_, ?_, ?_⟩
      · rw [hfold]
        simp [SubscriptionGroup.add]
      · exact List.pairwise_cons.mpr ⟨fun h hin => hnumber ▸ habove h hin, hascending⟩
      · refine List.forall_mem_cons.mpr ⟨?_, fun h hin => ?_⟩
        · omega
        · have := habove h hin
          omega

theorem handles_draw_ascending (r : Renderer) (store : Store) (a : Anchors) (doc : DocumentId)
    {e : Editor} (hmanner : e.manner = .plain) :
    ((r.draw store a doc e).1.handles doc).Pairwise fun h k => rank h < rank k := by
  have hcleared : e.OffMargin (a.reconcile doc (store.rows doc) e).2.2 := by
    rw [Anchors.reconcile_editor]
    exact Anchors.offMargin_destroyAll doc _ e
  have hreleased := hcleared.trans (offMargin_releaseAll (r.handles doc) _)
  obtain ⟨made, hfold, hascending, -⟩ := exists_foldl_drawGroup doc []
    (a.reconcile doc (store.rows doc) e).2.1 (hreleased.manner.trans hmanner)
    (store.diagnostics doc).entries
  rw [draw_eq]
  dsimp only
  rw [handles, tooltipGroup_keep, if_pos rfl, hfold, List.nil_append, released_map_live]
  exact hascending

end Renderer

namespace Terminal

variable {σ : Type u} {s : Session σ} {doc : DocumentId}

theorem tooltipsOf_eq (e : Editor) (doc : DocumentId) :
    tooltipsOf e doc = (e.liveTooltips doc).map Prod.snd := by
  rw [tooltipsOf, Editor.liveTooltips, SortedMap.values]
  induction e.tooltips.entries with
  | nil => rfl
  | cons x rest ih =>
      rw [List.map_cons, List.filter_cons, List.filterMap_cons]
      by_cases hdoc : x.2.1 = doc
      · simp only [hdoc, decide_true, if_true, List.map_cons, ih]
      · simp only [hdoc, decide_false, Bool.false_eq_true, if_false, ih]

/-- The tooltips of a document are listed as its groups are, from top to bottom. -/
theorem tooltipsOf_eq_of_ascending (hs : s.Consistent)
    (hhandles : (s.renderer.handles doc).Pairwise fun h k => rank h < rank k) :
    tooltipsOf s.editor doc = (s.store.diagnostics doc).entries.map Tooltip.ofGroup := by
  have hlength := hs.length_handles doc
  have hzip : ((s.renderer.handles doc).zip ((s.store.diagnostics doc).entries.map
      Tooltip.ofGroup)).Pairwise fun a b => rank a.1 < rank b.1 := by
    apply List.Pairwise.of_map (S := fun h k => rank h < rank k) Prod.fst (fun _ _ h => h)
    rwa [List.map_fst_zip (Nat.le_of_eq hlength)]
  rw [tooltipsOf_eq, SortedMap.eq_of_perm (f := fun x => rank x.1) (hs.liveTooltips_perm doc)
    (s.editor.liveTooltips_ascending doc) hzip, List.map_snd_zip (Nat.le_of_eq hlength.symm)]

/-- A row with issues has a mark in the gutter. -/
theorem hasGutterMark_of_mem_rows (hs : s.Consistent) {row : Row} (hrow : row ∈ s.store.rows doc) :
    hasGutterMark s.editor doc row = true := by
  obtain ⟨h, ha⟩ := Option.isSome_iff_exists.mp (((hs.shows doc).rows row).mpr hrow)
  have hmarker := hs.held.marker_of_anchor ha
  rw [hasGutterMark, List.any_eq_true]
  refine ⟨_, SortedMap.mem_values_iff.mpr ⟨h, hmarker⟩, ?_⟩
  simp [Decoration.both, Decoration.lineNumber]

end Terminal

/-- Without a cursor the issue in the status bar is the first one of the focused document. -/
theorem Renderer.choice_of_no_cursor {store : Store} {e : Editor} {doc : DocumentId}
    (hactive : e.active = some doc) (hcursor : e.cursors.get? doc = none) :
    choice store e = (store.firstGroup doc).map fun entry => (doc, entry.2.first) := by
  simp [choice, hactive, hcursor, Store.firstGroup, Option.map_map, Function.comp_def]

namespace Terminal

variable {σ : Type u} {s : Session σ} {doc : DocumentId} {d : Document}

/-! ### The printout -/

/-- The lines about a row with issues. -/
def groupText (source : List (List Char)) (entry : Row × LineGroup) : String :=
  let sourceLine := String.ofList (source[entry.1.toNat]?.getD [])
  let entries := (Text.lines entry.2.tooltipText.toList).map fun line =>
    "        " ++ String.ofList line ++ "\n"
  ">" ++ lineNumber (entry.1.toNat + 1) ++ " | " ++ sourceLine ++ "\n" ++ String.join entries

/-- What is printed about a document with such diagnostics. -/
def printout (d : Document) (diagnostics : Diagnostics) : String :=
  let groups := diagnostics.entries.map (groupText (Text.lines d.text.toList))
  let status := (diagnostics.firstGroup.map fun entry =>
    "status: " ++ entry.2.first.statusText ++ "\n").getD ""
  (d.path.getD ⟨""⟩).text ++ ":\n" ++ String.join groups ++ status

/-- What is printed about the tooltips of a document is about its groups. -/
theorem map_entryText_tooltipsOf (hs : s.Consistent)
    (hhandles : (s.renderer.handles doc).Pairwise fun h k => rank h < rank k)
    (source : List (List Char)) :
    (tooltipsOf s.editor doc).map (entryText s.editor doc source) =
      (s.store.diagnostics doc).entries.map (groupText source) := by
  rw [tooltipsOf_eq_of_ascending hs hhandles, List.map_map]
  refine List.map_congr_left fun entry hentry => ?_
  have hmark := hasGutterMark_of_mem_rows hs (List.mem_map_of_mem (f := Prod.fst) hentry)
  simp only [Function.comp_apply, entryText, Tooltip.ofGroup, Tooltip.belowGutter, hmark, if_true,
    groupText]

/-- A document that was just drawn is printed with its diagnostics and nothing else. -/
theorem report_render (hs : (s.render doc).Consistent) (hmanner : s.editor.manner = .plain)
    (hdocument : s.editor.documents.get? doc = some d) (hactive : s.editor.active = some doc)
    (hcursor : s.editor.cursors.get? doc = none) :
    report (s.render doc).editor doc = printout d (s.store.diagnostics doc) := by
  have hopen : (s.render doc).editor.documents.get? doc = some d := by
    rw [(Session.confined_render s doc).undisturbed.editor.documents, hdocument]
  have hentries := map_entryText_tooltipsOf hs
    (s.renderer.handles_draw_ascending s.store s.anchors doc hmanner) (Text.lines d.text.toList)
  have hstatus : (s.render doc).editor.status =
      (s.store.firstGroup doc).map fun entry => entry.2.first.statusText := by
    have hdrawn := (Session.confined_draw s doc).undisturbed.editor
    change (Renderer.choice s.store (s.draw doc).editor).map (fun shown => shown.2.statusText) = _
    rw [Renderer.choice_of_no_cursor (hdrawn.active.trans hactive) (hdrawn.cursors ▸ hcursor),
      Option.map_map]
    rfl
  rw [report, hopen]
  dsimp only
  rw [hentries, hstatus, printout, Store.firstGroup]
  change _ ++ String.join ((s.store.diagnostics doc).entries.map _) ++ _ = _
  cases (s.store.diagnostics doc).firstGroup <;> rfl

end Terminal

end LintMargin
