import LintMargin.Proofs.Session.Move

/-!
# The margin shows what is stored

A session is consistent if the anchors and tooltips it holds are those the editor shows, and if they are
what the stored diagnostics ask for, document by document. Every move keeps a session consistent, so it
is consistent after every run.
-/

namespace LintMargin

universe u

/-! ### What is to be seen -/

namespace Editor

/-- The anchors of a document, each as its row and its name. -/
def liveAnchors (e : Editor) (doc : DocumentId) : List (Row × Handle) :=
  e.markers.entries.filterMap fun x => if x.2.doc = doc then some (x.2.row, x.1) else none

/-- The tooltips of a document with their names. -/
def liveTooltips (e : Editor) (doc : DocumentId) : List (Handle × Tooltip) :=
  e.tooltips.entries.filterMap fun x => if x.2.1 = doc then some (x.1, x.2.2) else none

theorem mem_liveAnchors {e : Editor} {doc : DocumentId} {row : Row} {h : Handle} :
    (row, h) ∈ e.liveAnchors doc ↔
      ∃ m, e.markers.get? h = some m ∧ m.doc = doc ∧ m.row = row := by
  simp only [liveAnchors, List.mem_filterMap, SortedMap.get?_eq_some_iff]
  constructor
  · rintro ⟨⟨g, m⟩, hmem, heq⟩
    split at heq
    · next hdoc =>
        cases heq
        exact ⟨m, hmem, hdoc, rfl⟩
    · cases heq
  · rintro ⟨m, hmem, hdoc, rfl⟩
    exact ⟨(h, m), hmem, by simp [hdoc]⟩

theorem nodup_liveAnchors (e : Editor) (doc : DocumentId) : (e.liveAnchors doc).Nodup := by
  apply SortedMap.nodup_filterMap_entries
  rintro ⟨g, m⟩ ⟨g', m'⟩ ⟨row, h⟩ hx hy
  simp only [Option.ite_none_right_eq_some, Option.some.injEq, Prod.mk.injEq] at hx hy
  exact hx.2.2.trans hy.2.2.symm

end Editor

namespace Session

variable {σ : Type u}

/-! ### Consistency -/

/-- The rows of a document with an anchor are those with a group, and its tooltips are those of its
groups, from top to bottom. -/
structure Shows (s : Session σ) (doc : DocumentId) : Prop where
  rows : ∀ row, (s.anchors.anchor? doc row).isSome ↔ row ∈ s.store.rows doc
  tooltips : (s.renderer.handles doc).map s.editor.tooltips.get? =
    (s.store.diagnostics doc).entries.map fun entry => some (doc, Tooltip.ofGroup entry)

structure Consistent (s : Session σ) : Prop where
  held : Held s.renderer.handles s.anchors s.editor
  shows : ∀ doc, s.Shows doc

theorem consistent_start (manner : Manner) (status : Option String) (services : σ)
    (settings : Settings) : (start (.fresh manner status) services settings).Consistent where
  held := Held.empty manner status
  shows doc := by
    constructor
    · intro row
      simp [start, Anchors.anchor?, Anchors.ofDocument, Store.rows, Store.diagnostics,
        SortedMap.keys]
    · rfl

theorem Consistent.congr {s t : Session σ} (hs : s.Consistent) (hstore : t.store = s.store)
    (hanchors : t.anchors = s.anchors) (hhandles : t.renderer.handles = s.renderer.handles)
    (hmarkers : t.editor.markers = s.editor.markers)
    (htooltips : t.editor.tooltips = s.editor.tooltips)
    (hmanner : t.editor.manner = s.editor.manner) (hissued : s.editor.issued ≤ t.editor.issued) :
    t.Consistent where
  held := by
    rw [hanchors, hhandles]
    exact hs.held.congr hmarkers htooltips hmanner hissued
  shows doc := by
    constructor
    · rw [hanchors, hstore]
      exact (hs.shows doc).rows
    · rw [hhandles, htooltips, hstore]
      exact (hs.shows doc).tooltips

theorem Consistent.updateStatus {s : Session σ} (hs : s.Consistent) : s.updateStatus.Consistent :=
  hs.congr rfl rfl rfl rfl rfl rfl (Nat.le_refl _)

/-- Drawing a document mends whatever was wrong with it alone. -/
theorem consistent_draw {s : Session σ} {doc : DocumentId}
    (hheld : Held s.renderer.handles s.anchors s.editor) (hothers : ∀ d, d ≠ doc → s.Shows d) :
    (s.draw doc).Consistent := by
  obtain ⟨made, hredrawn⟩ := Renderer.exists_redrawn hheld s.store doc
  refine ⟨hredrawn.held, fun d => ?_⟩
  by_cases hd : d = doc
  · subst hd
    refine ⟨hredrawn.rows, ?_⟩
    exact hredrawn.handles_self ▸ hredrawn.shown
  · have hother := hothers d hd
    constructor
    · intro row
      exact hredrawn.anchors_ne d row hd ▸ hother.rows row
    · refine Eq.trans ?_ hother.tooltips
      change ((s.renderer.draw s.store s.anchors doc s.editor).1.handles d).map _ = _
      rw [hredrawn.handles_ne d hd]
      exact List.map_congr_left fun h hin => hredrawn.standing d h hd hin

theorem handles_forgetDiagnostics (s : Session σ) (doc : DocumentId) :
    (s.forgetDiagnostics doc).renderer.handles = Function.update s.renderer.handles doc [] :=
  funext fun d => Renderer.handles_clearDocument s.renderer doc d (s.anchors.removeAll doc s.editor).2

theorem held_forgetDiagnostics {s : Session σ} (hheld : Held s.renderer.handles s.anchors s.editor)
    (doc : DocumentId) :
    let t := s.forgetDiagnostics doc
    Held t.renderer.handles t.anchors t.editor := by
  intro t
  rw [handles_forgetDiagnostics]
  exact (hheld.removeAll doc).releaseAll doc

/-- Forgetting a document leaves nothing of it to be shown. -/
theorem Consistent.forgetDiagnostics {s : Session σ} (hs : s.Consistent) (doc : DocumentId) :
    (s.forgetDiagnostics doc).Consistent := by
  have hhandles := handles_forgetDiagnostics s doc
  refine ⟨held_forgetDiagnostics hs.held doc, fun d => ?_⟩
  by_cases hd : d = doc
  · subst hd
    constructor
    · intro row
      simp [Session.forgetDiagnostics, Anchors.removeAll, Anchors.anchor?_erase, Store.rows,
        Store.diagnostics, SortedMap.keys]
    · rw [hhandles, Function.update_self]
      simp [Session.forgetDiagnostics, Store.diagnostics]
  · have hstore : (s.forgetDiagnostics doc).store.diagnostics d = s.store.diagnostics d := by
      simp [Session.forgetDiagnostics, Store.diagnostics,
        SortedMap.get?_erase_of_ne _ (Ne.symm hd)]
    constructor
    · intro row
      rw [Store.rows, hstore]
      change ((s.anchors.removeAll doc s.editor).1.anchor? d row).isSome ↔ _
      rw [Anchors.removeAll, Anchors.anchor?_erase, if_neg (Ne.symm hd)]
      exact (hs.shows d).rows row
    · rw [hstore, hhandles, Function.update_of_ne hd, ← (hs.shows d).tooltips]
      apply List.map_congr_left
      intro h hin
      obtain ⟨t, ht⟩ := (hs.held.tooltip h d).mp hin
      have hnot : h ∉ s.renderer.handles doc := fun hdoc => hd (hs.held.tooltip_doc_eq hin hdoc)
      change (Renderer.releaseAll (s.renderer.handles doc)
        (s.anchors.removeAll doc s.editor).2).tooltips.get? h = _
      rw [Renderer.releaseAll_eq, Anchors.removeAll, Anchors.destroyAll_eq]
      simp [SortedMap.get?_filter, ht, Option.filter, hnot]

theorem Consistent.move {s t : Session σ} (hmove : Move s t) (hs : s.Consistent) : t.Consistent := by
  cases hmove with
  | aside h =>
      exact hs.congr h.store h.anchors (by rw [h.renderer]) h.markers h.tooltips h.manner h.issued
  | refresh => exact hs.updateStatus
  | render doc =>
      rw [render_eq]
      exact (consistent_draw hs.held fun d _ => hs.shows d).updateStatus
  | replace doc d =>
      rw [render_eq]
      refine Consistent.updateStatus
        (consistent_draw (s := { s with store := s.store.insert doc d }) hs.held fun k hk => ?_)
      have hstore : Store.diagnostics (s.store.insert doc d) k = s.store.diagnostics k := by
        simp [Store.diagnostics, SortedMap.get?_insert_of_ne _ _ (Ne.symm hk)]
      constructor
      · simp only [Store.rows, hstore]
        exact (hs.shows k).rows
      · simp only [hstore]
        exact (hs.shows k).tooltips
  | forget doc => exact (hs.forgetDiagnostics doc).updateStatus

theorem Moves.consistent {s t : Session σ} (h : Moves s t) (hs : s.Consistent) : t.Consistent :=
  h.keep (fun _ _ hmove hs => hs.move hmove) hs

/-! ### What is to be seen of a consistent session -/

theorem Consistent.rows_eq {s : Session σ} (hs : s.Consistent) (doc : DocumentId) :
    s.anchors.rows doc = s.store.rows doc := by
  apply SortedMap.keys_eq_of_mem_iff
  intro row
  rw [← SortedMap.isSome_get?_iff]
  exact (hs.shows doc).rows row

theorem Consistent.liveAnchors_perm {s : Session σ} (hs : s.Consistent) (doc : DocumentId) :
    (s.editor.liveAnchors doc).Perm (s.anchors.ofDocument doc).entries := by
  rw [List.perm_ext_iff_of_nodup (s.editor.nodup_liveAnchors doc)
    (s.anchors.ofDocument doc).entries_nodup]
  rintro ⟨row, h⟩
  rw [Editor.mem_liveAnchors, ← SortedMap.get?_eq_some_iff]
  constructor
  · rintro ⟨m, hm, rfl, rfl⟩
    exact ((hs.held.anchor h m).mp hm).2
  · intro ha
    exact ⟨_, hs.held.marker_of_anchor ha, rfl, rfl⟩

theorem Consistent.length_handles {s : Session σ} (hs : s.Consistent) (doc : DocumentId) :
    (s.renderer.handles doc).length =
      ((s.store.diagnostics doc).entries.map Tooltip.ofGroup).length := by
  simpa using congrArg List.length (hs.shows doc).tooltips

/-- The tooltips of a document are held in the order of its groups. -/
theorem Consistent.liveTooltips_perm {s : Session σ} (hs : s.Consistent) (doc : DocumentId) :
    (s.editor.liveTooltips doc).Perm ((s.renderer.handles doc).zip
      ((s.store.diagnostics doc).entries.map Tooltip.ofGroup)) := by
  refine Editor.share_perm_zip (hs.held.distinct doc) (fun h => hs.held.tooltip h doc) ?_
  rw [(hs.shows doc).tooltips, List.map_map]
  rfl

theorem Consistent.tooltip_handles_perm {s : Session σ} (hs : s.Consistent) (doc : DocumentId) :
    ((s.editor.liveTooltips doc).map Prod.fst).Perm (s.renderer.handles doc) := by
  have hperm := (hs.liveTooltips_perm doc).map Prod.fst
  rwa [List.map_fst_zip (Nat.le_of_eq (hs.length_handles doc))] at hperm

theorem Consistent.tooltip_texts_perm {s : Session σ} (hs : s.Consistent) (doc : DocumentId) :
    ((s.editor.liveTooltips doc).map Prod.snd).Perm
      ((s.store.diagnostics doc).entries.map Tooltip.ofGroup) := by
  have hperm := (hs.liveTooltips_perm doc).map Prod.snd
  rwa [List.map_snd_zip (Nat.le_of_eq (hs.length_handles doc).symm)] at hperm

theorem Consistent.liveTooltips_eq_nil {s : Session σ} (hs : s.Consistent) {doc : DocumentId}
    (hstore : s.store.get? doc = none) : s.editor.liveTooltips doc = [] := by
  have hperm := hs.tooltip_texts_perm doc
  rw [Store.diagnostics_of_get?_eq_none hstore] at hperm
  exact List.map_eq_nil_iff.mp hperm.eq_nil

theorem Consistent.tooltip_rows_perm {s : Session σ} (hs : s.Consistent) (doc : DocumentId) :
    ((s.editor.liveTooltips doc).map fun x => x.2.row).Perm (s.store.rows doc) := by
  have hperm := (hs.tooltip_texts_perm doc).map Tooltip.row
  rw [List.map_map, List.map_map] at hperm
  exact hperm

theorem Reachable.consistent {sv : Services σ} {s : Session σ} (h : Reachable sv s) :
    s.Consistent := by
  obtain ⟨manner, status, services, settings, acts, rfl⟩ := h
  exact (run_moves sv _ acts).consistent (consistent_start manner status services settings)

/-! ### After every run -/

/-- After any run of a session that began in a fresh editor, the anchors that are held of a document, its
anchors in the editor and its tooltips there are one for each row with a group, the anchors under the
names they are held by, and the tooltips with the texts of their groups. Every anchor has its two
decorations. -/
theorem margin_shows_store (sv : Services σ) (manner : Manner) (status : Option String) (services : σ)
    (settings : Settings) (acts : List (Act σ)) :
    let s := (start (.fresh manner status) services settings).run sv acts
    (∀ doc,
      s.anchors.rows doc = s.store.rows doc ∧
      (s.editor.liveAnchors doc).Perm (s.anchors.ofDocument doc).entries ∧
      ((s.editor.liveTooltips doc).map fun x => x.2.row).Perm (s.store.rows doc) ∧
      (s.editor.liveTooltips doc).Perm ((s.renderer.handles doc).zip
        ((s.store.diagnostics doc).entries.map Tooltip.ofGroup))) ∧
    ∀ h m, s.editor.markers.get? h = some m → m.decorations = [.line, .lineNumber] := by
  intro s
  have hs : s.Consistent := Reachable.consistent ⟨manner, status, services, settings, acts, rfl⟩
  refine ⟨fun doc => ⟨?_, ?_, ?_, ?_⟩, ?_⟩
  · exact hs.rows_eq doc
  · exact hs.liveAnchors_perm doc
  · exact hs.tooltip_rows_perm doc
  · exact hs.liveTooltips_perm doc
  · intro h m hm
    exact ((hs.held.anchor h m).mp hm).1

end Session

end LintMargin
