import LintMargin.Proofs.Session.Requests

/-!
# Linting a document again

A pass that lints a document leaves its margin as the new report asks, whatever was there before, and
gets there with as few requests as possible: anchors on rows that keep their issues are not touched.
-/

namespace LintMargin

universe u

namespace Session

variable {σ : Type u}

/-! ### Rows that stay, go and come -/

/-- The requests `calls` take the margin of a document from what the first session shows to what the
second one does. Its anchors are named by `old` and `new`. -/
structure Relinted (doc : DocumentId) (s t : Session σ) (old new : Row → Handle)
    (calls : List Call) : Prop where
  old_name : ∀ row ∈ s.store.rows doc, s.anchors.anchor? doc row = some (old row)
  new_name : ∀ row ∈ t.store.rows doc, t.anchors.anchor? doc row = some (new row)
  stay : ∀ row ∈ s.store.rows doc, row ∈ t.store.rows doc →
    new row = old row ∧ ∀ c ∈ calls, ¬ Touches doc row (old row) c
  go : calls.filterMap Call.destroyed? =
    ((s.store.rows doc).filter fun row => row ∉ t.store.rows doc).map fun row => (doc, old row)
  come : calls.filter Call.isMarking =
    ((t.store.rows doc).filter fun row => row ∉ s.store.rows doc).flatMap fun row =>
      Call.marking doc row (new row)
  ascending : (t.store.rows doc).Pairwise (· < ·)
  released : (calls.filterMap Call.released?).Perm ((s.editor.liveTooltips doc).map Prod.fst)
  /-- Nothing is put up before all is taken away. -/
  order : ∃ early late, calls = early ++ late ∧
    (∀ c ∈ early, c.isMarking = false ∧ c.isTooltip = false) ∧
    ∀ c ∈ late, c.destroyed? = none ∧ c.released? = none

theorem Consistent.exists_names {s : Session σ} (hs : s.Consistent) (doc : DocumentId) :
    ∃ name : Row → Handle, ∀ row ∈ s.store.rows doc, s.anchors.anchor? doc row = some (name row) := by
  refine ⟨fun row => (s.anchors.anchor? doc row).getD default, fun row hrow => ?_⟩
  obtain ⟨h, ha⟩ := Option.isSome_iff_exists.mp (((hs.shows doc).rows row).mpr hrow)
  simp [ha]

theorem Consistent.anchor?_eq_none {s : Session σ} (hs : s.Consistent) {doc : DocumentId} {row : Row}
    (hrow : row ∉ s.store.rows doc) : s.anchors.anchor? doc row = none := by
  rw [← Option.not_isSome_iff_eq_none, (hs.shows doc).rows]
  exact hrow

theorem Consistent.stale_eq {s : Session σ} (hs : s.Consistent) {doc : DocumentId}
    {name : Row → Handle}
    (hname : ∀ row ∈ s.store.rows doc, s.anchors.anchor? doc row = some (name row))
    (rows : List Row) :
    s.anchors.stale doc rows = ((s.store.rows doc).filter fun row => row ∉ rows).map name := by
  have hkeys : ((s.anchors.ofDocument doc).filter fun row _ => !rows.contains row).keys =
      (s.store.rows doc).filter fun row => row ∉ rows := by
    rw [SortedMap.keys_filter, ← hs.rows_eq]
    apply List.filter_congr
    intro row _
    simp
  have hvalues := SortedMap.map_get?_keys
    ((s.anchors.ofDocument doc).filter fun row _ => !rows.contains row)
  rw [hkeys] at hvalues
  apply (List.map_inj_right fun _ _ => Option.some.inj).mp
  rw [List.map_map]
  refine hvalues.symm.trans (List.map_congr_left fun row hrow => ?_)
  obtain ⟨hin, hnot⟩ := List.mem_filter.mp hrow
  have hanchor : (s.anchors.ofDocument doc).get? row = some (name row) := hname row hin
  rw [SortedMap.get?_filter, hanchor]
  simp only [decide_eq_true_eq] at hnot
  simp [Option.filter, hnot]

/-- New anchors are made on the new rows. -/
theorem flatMap_markings {s t : Session σ} (hs : s.Consistent) {doc : DocumentId} {new : Row → Handle}
    {rows : List Row} (hnew : ∀ row ∈ rows, t.anchors.anchor? doc row = some (new row)) :
    rows.flatMap (s.anchors.markings t.anchors doc) =
      (rows.filter fun row => row ∉ s.store.rows doc).flatMap fun row =>
        Call.marking doc row (new row) := by
  induction rows with
  | nil => rfl
  | cons row rest ih =>
      have hrest := ih fun r hr => hnew r (List.mem_cons_of_mem _ hr)
      have hname := hnew row List.mem_cons_self
      rw [List.flatMap_cons, hrest]
      by_cases hrow : row ∈ s.store.rows doc
      · obtain ⟨name, hold⟩ := hs.exists_names doc
        simp [hrow, Anchors.markings, hold row hrow]
      · simp [hrow, Anchors.markings, hs.anchor?_eq_none hrow, hname]

/-- The requests of a pass, as `runPass_redrawn` lists them, do what `Relinted` says. -/
theorem exists_relinted {s t : Session σ} (hs : s.Consistent) (ht : t.Consistent) {doc : DocumentId}
    (d : Document) (config : LintConfig) (status : Option String) {entries : List (Row × LineGroup)}
    {made : List Handle} (hrows : t.store.rows doc = entries.map Prod.fst)
    (hmade : made.length = entries.length)
    (hkept : ∀ row h, row ∈ t.store.rows doc → s.anchors.anchor? doc row = some h →
      t.anchors.anchor? doc row = some h) :
    ∃ old new, Relinted doc s t old new (requests s.settings d config doc
      (s.anchors.stale doc (t.store.rows doc)) (s.renderer.handles doc)
      (drawings doc s.anchors t.anchors entries made) status) := by
  obtain ⟨old, hold⟩ := hs.exists_names doc
  obtain ⟨new, hnew⟩ := ht.exists_names doc
  refine ⟨old, new, ?_⟩
  constructor
  case old_name => exact hold
  case new_name => exact hnew
  case stay =>
      intro row hrow hstill
      have hstays := hkept row _ hstill (hold row hrow)
      refine ⟨Option.some.inj ((hnew row hstill).symm.trans hstays), fun c hc htouch => ?_⟩
      rcases touches_requests hc htouch with hgone | ⟨r, g, hbefore, hafter, hsame⟩
      · -- An anchor that goes is on another row.
        obtain ⟨r, hnot, hr⟩ := Anchors.mem_stale_iff.mp hgone
        obtain ⟨-, rfl⟩ := hs.held.anchor_inj hr (hold row hrow)
        exact hnot hstill
      · -- A row that gets an anchor had none.
        suffices r = row by
          rw [this, hold row hrow] at hbefore
          cases hbefore
        rcases hsame with hrow | rfl
        · exact hrow
        · exact (ht.held.anchor_inj hafter hstays).2
  case go =>
      rw [filterMap_destroyed?_requests, hs.stale_eq hold, List.map_map]
      rfl
  case come =>
      rw [filter_isMarking_requests hmade, ← hrows, flatMap_markings hs hnew]
  case ascending =>
      apply (t.store.diagnostics doc).keys_ascending.imp
      intro a b hlt
      exact UInt32.lt_iff_toNat_lt.mpr hlt
  case released =>
      rw [filterMap_released?_requests]
      exact (hs.tooltip_handles_perm doc).symm
  case order => exact exists_requests_eq_append

end Session

/-! ### What is to be seen on a row -/

/-- The anchors on a row, each as its decorations, and the tooltips on it. -/
def Editor.seenOn (e : Editor) (doc : DocumentId) (row : Row) : List (List Decoration) × List Tooltip :=
  ((e.markers.values.filter fun m => m.doc = doc ∧ m.row = row).map (·.decorations),
    ((e.liveTooltips doc).map Prod.snd).filter fun t => t.row = row)

/-- What a row should look like according to the diagnostics of its document. -/
def Diagnostics.wantedOn (d : Diagnostics) (row : Row) : List (List Decoration) × List Tooltip :=
  match d.get? row with
  | some g => ([Decoration.both], [Tooltip.ofGroup (row, g)])
  | none => ([], [])

namespace Session

theorem Consistent.decorations_on {s : Session σ} (hs : s.Consistent) (doc : DocumentId) (row : Row) :
    (s.editor.markers.values.filter fun m => m.doc = doc ∧ m.row = row).map (·.decorations) =
      match s.store.group? doc row with
      | some _ => [Decoration.both]
      | none => [] := by
  have hrow := (hs.shows doc).rows row
  rw [Store.rows, ← SortedMap.isSome_get?_iff] at hrow
  rw [SortedMap.values, List.filter_map, Store.group?]
  cases hgroup : (s.store.diagnostics doc).get? row with
  | none =>
      rw [hgroup, Option.isSome_none] at hrow
      simp only [List.map_eq_nil_iff, List.filter_eq_nil_iff, Function.comp_apply, decide_eq_true_eq]
      rintro ⟨h, m⟩ hmem ⟨rfl, rfl⟩
      have ha := ((hs.held.anchor h m).mp (SortedMap.get?_eq_some_iff.mpr hmem)).2
      simp [ha] at hrow
  | some g =>
      rw [hgroup, Option.isSome_some] at hrow
      obtain ⟨h, ha⟩ := Option.isSome_iff_exists.mp (hrow.mpr rfl)
      have hmarker := hs.held.marker_of_anchor ha
      rw [SortedMap.filter_entries_eq_singleton (SortedMap.get?_eq_some_iff.mp hmarker)]
      · rfl
      · rintro ⟨k, m⟩ hmem
        simp only [Function.comp_apply, decide_eq_true_eq]
        constructor
        · rintro ⟨rfl, rfl⟩
          obtain ⟨hdecorations, hk⟩ := (hs.held.anchor k m).mp (SortedMap.get?_eq_some_iff.mpr hmem)
          obtain rfl := Option.some.inj (hk.symm.trans ha)
          rw [← hdecorations]
        · intro heq
          cases heq
          exact ⟨rfl, rfl⟩

theorem Consistent.tooltips_on {s : Session σ} (hs : s.Consistent) (doc : DocumentId) (row : Row) :
    ((s.editor.liveTooltips doc).map Prod.snd).filter (fun t => t.row = row) =
      match s.store.group? doc row with
      | some g => [Tooltip.ofGroup (row, g)]
      | none => [] := by
  have hon := (hs.tooltip_texts_perm doc).filter fun t => t.row = row
  rw [List.filter_map (f := Tooltip.ofGroup)] at hon
  rw [Store.group?]
  cases hgroup : (s.store.diagnostics doc).get? row with
  | none =>
      have hnone : (s.store.diagnostics doc).entries.filter
          ((fun t => decide (t.row = row)) ∘ Tooltip.ofGroup) = [] := by
        rw [List.filter_eq_nil_iff]
        rintro ⟨r, g⟩ hmem hr
        obtain rfl : r = row := of_decide_eq_true hr
        rw [SortedMap.get?_eq_some_iff.mpr hmem] at hgroup
        cases hgroup
      rw [hnone] at hon
      exact hon.eq_nil
  | some g =>
      have hone : (s.store.diagnostics doc).entries.filter
          ((fun t => decide (t.row = row)) ∘ Tooltip.ofGroup) = [(row, g)] := by
        refine SortedMap.filter_entries_eq_singleton (SortedMap.get?_eq_some_iff.mp hgroup) ?_
        rintro ⟨r, k⟩ hmem
        have hk := SortedMap.get?_eq_some_iff.mpr hmem
        constructor
        · intro hr
          obtain rfl : r = row := of_decide_eq_true hr
          rw [Option.some.inj (hgroup.symm.trans hk)]
        · intro heq
          cases heq
          exact decide_eq_true rfl
      rw [hone] at hon
      exact List.perm_singleton.mp hon

/-- What is seen of a consistent session is a matter of what it has stored. -/
theorem Consistent.seenOn_eq {s : Session σ} (hs : s.Consistent) (doc : DocumentId) (row : Row) :
    s.editor.seenOn doc row = (s.store.diagnostics doc).wantedOn row := by
  rw [Editor.seenOn, hs.decorations_on, hs.tooltips_on, Diagnostics.wantedOn, Store.group?]
  cases (s.store.diagnostics doc).get? row <;> rfl

/-! ### Linting again and linting for the first time -/

/-- A new session in a new editor with the same documents, settings and services. -/
def afresh (s : Session σ) (sv : Services σ) (manner : Manner) (status : Option String) : Session σ :=
  (start (.fresh manner status) s.services s.settings).act sv
    (.arranged ⟨s.editor.documents, s.editor.active, s.editor.cursors⟩)

theorem reachable_afresh (s : Session σ) (sv : Services σ) (manner : Manner)
    (status : Option String) : Reachable sv (s.afresh sv manner status) :=
  ⟨manner, status, s.services, s.settings, [.arranged _], rfl⟩

/-- A pass that lints a document stores what was reported and nothing else of it, asks the linter once,
lets rows that keep their issues alone, and leaves the document as a first pass over it would. -/
theorem relint_incremental {sv : Services σ} {s : Session σ} (hs : Reachable sv s) {doc : DocumentId}
    {rows : Nat} (hlinted : (s.runPass sv doc).1 = .linted rows) :
    ∃ d calls old new, s.editor.documents.get? doc = some d ∧
      let config := (s.lookUp sv d).1
      let report := Report.ofAnswer ((s.lookUp sv d).2.linterAnswer sv d config)
      let t := (s.runPass sv doc).2
      t.store.get? doc = some (Report.moveUp (prepare s.settings d).2.addedLines report).aggregate ∧
      rows = (t.store.rows doc).length ∧
      t.editor.journal = s.editor.journal ++ calls ∧
      calls.filter Call.isLint = [lintCall s.settings d config] ∧
      Relinted doc s t old new calls ∧
      ∀ manner status,
        let first := (s.afresh sv manner status).runPass sv doc
        first.1 = .linted rows ∧ first.2.store.get? doc = t.store.get? doc ∧
        first.2.anchors.rows doc = t.anchors.rows doc ∧
        ∀ row, first.2.editor.seenOn doc row = t.editor.seenOn doc row := by
  have hconsistent := hs.consistent
  have hpassed : (s.runPass sv doc).2.Consistent := (hs.act (.passed doc)).consistent
  obtain ⟨d, hdoc, hstore, hrows, made, hmade, hjournal, hkept⟩ :=
    runPass_redrawn hconsistent hlinted
  have hentry : (s.runPass sv doc).2.store.get? doc = some (diagnosticsOf s.settings d
      (.ofAnswer ((s.lookUp sv d).2.linterAnswer sv d (s.lookUp sv d).1))) := by
    rw [hstore, SortedMap.get?_insert_self]
  have hkeys : (s.runPass sv doc).2.store.rows doc = (diagnosticsOf s.settings d
      (.ofAnswer ((s.lookUp sv d).2.linterAnswer sv d (s.lookUp sv d).1))).keys := by
    rw [Store.rows, Store.diagnostics, hentry]
    rfl
  rw [← hkeys] at hjournal hkept
  obtain ⟨old, new, hrelinted⟩ := exists_relinted hconsistent hpassed d (s.lookUp sv d).1
    (s.runPass sv doc).2.editor.status hkeys hmade hkept
  refine ⟨d, _, old, new, hdoc, hentry, ?_, hjournal, filter_isLint_requests, hrelinted, ?_⟩
  · rw [hrows, hkeys, SortedMap.length_keys]
  · intro manner status first
    have hfirst : Reachable sv first.2 :=
      (reachable_afresh s sv manner status).act (.passed doc)
    obtain ⟨houtcome, hsame⟩ : first.1 = .linted rows ∧
        first.2.store.get? doc = (s.runPass sv doc).2.store.get? doc :=
      runPass_congr rfl rfl rfl hlinted
    have hdiagnostics : first.2.store.diagnostics doc =
        (s.runPass sv doc).2.store.diagnostics doc := by
      rw [Store.diagnostics, hsame]
      rfl
    refine ⟨houtcome, hsame, ?_, fun row => ?_⟩
    · rw [hfirst.consistent.rows_eq, hpassed.rows_eq, Store.rows, hdiagnostics]
      rfl
    · rw [hfirst.consistent.seenOn_eq, hpassed.seenOn_eq, hdiagnostics]

end Session

/-- Services that exclude nothing, know no configuration and report what they are told to. -/
def Services.reporting : Services Report where
  isIgnored _ report := (false, report)
  resolve _ report := (.empty, report)
  forget report := report
  lint _ _ _ _ report := (.ok report, report)

namespace Session

/-- A document with issues on rows 0 and 2, about to have them on rows 2 and 3. -/
def shifting : Session Report :=
  (start .empty [] {}).run .reporting
    [.arranged ⟨SortedMap.insert ∅ ⟨7⟩ ⟨"a\nb\nc\nd", none, "source.js"⟩, some ⟨7⟩, ∅⟩,
      .served [some ⟨1, 1, "first", none⟩, some ⟨3, 1, "third", none⟩], .passed ⟨7⟩,
      .served [some ⟨3, 2, "third", none⟩, none, some ⟨4, 1, "fourth", none⟩]]

theorem relint_incremental_shifting :
    Reachable .reporting shifting ∧ (shifting.runPass .reporting ⟨7⟩).1 = .linted 2 ∧
      ∃ calls old new, Relinted ⟨7⟩ shifting (shifting.runPass .reporting ⟨7⟩).2 old new calls := by
  have hreachable : Reachable .reporting shifting := ⟨.plain, none, [], {}, _, rfl⟩
  have hlinted : (shifting.runPass .reporting ⟨7⟩).1 = .linted 2 := by decide
  obtain ⟨-, calls, old, new, -, -, -, -, -, hrelinted, -⟩ := relint_incremental hreachable hlinted
  exact ⟨hreachable, hlinted, calls, old, new, hrelinted⟩

end Session

end LintMargin
