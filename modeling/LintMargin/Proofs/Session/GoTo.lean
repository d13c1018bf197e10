import LintMargin.Proofs.Session.Display
import LintMargin.Proofs.Session.Relint
import LintMargin.Proofs.Session.StatusBar

/-!
# Going to issues

The user goes on to the next row with issues, or to the issue in the status bar. Either way the cursor comes
to the first issue of a row, on that row, and the status bar shows just this issue, or would if it were
brought up to date.
-/

namespace LintMargin

universe u

/-- A cursor goes where it is told to go. -/
def Manner.Steers (m : Manner) : Prop :=
  ∀ documents doc p cursors, (m.land documents doc p cursors).get? doc = some p

theorem steers_plain : Manner.plain.Steers := fun _ _ _ _ => SortedMap.get?_insert_self _ _ _

/-! ### The next row -/

/-- The first of some rows from one on, or the first of all if there is none. -/
inductive NextRow (rows : List Row) (start : Row) : Row → Prop where
  | onward {row} (hrow : row ∈ rows) (hstart : start ≤ row) (hleast : ∀ r ∈ rows, start ≤ r → row ≤ r) :
      NextRow rows start row
  | around {row} (hrow : row ∈ rows) (hbefore : ∀ r ∈ rows, r < start) (hleast : ∀ r ∈ rows, row ≤ r) :
      NextRow rows start row

variable {rows : List Row} {start row : Row}

/-- From a row that is there one stays on it. -/
theorem NextRow.eq_of_mem (h : NextRow rows start row) (hstart : start ∈ rows) : row = start := by
  cases h with
  | onward hrow hle hleast => exact UInt32.le_antisymm (hleast start hstart (UInt32.le_refl _)) hle
  | around hrow hbefore hleast => exact absurd (hbefore start hstart) (UInt32.lt_irrefl _)

namespace Diagnostics

variable {d : Diagnostics} {g : LineGroup}

/-- The group on the next row, with its row. -/
def next (d : Diagnostics) (start : Row) : Option (Row × LineGroup) := (d.firstFrom start).or d.firstGroup

theorem nextRow_of_next (h : d.next start = some (row, g)) : NextRow d.keys start row ∧ d.get? row = some g := by
  unfold next at h
  cases hfrom : d.firstFrom start with
  | some entry =>
      rw [hfrom] at h
      obtain rfl : entry = (row, g) := Option.some.inj h
      obtain ⟨hget, hstart, hleast⟩ := firstFrom_eq_some_iff.mp hfrom
      exact ⟨.onward (SortedMap.mem_keys_iff.mpr ⟨g, hget⟩) hstart hleast, hget⟩
  | none =>
      rw [hfrom] at h
      obtain ⟨hget, hleast⟩ := firstGroup_eq_some_iff.mp h
      exact ⟨.around (SortedMap.mem_keys_iff.mpr ⟨g, hget⟩) (firstFrom_eq_none_iff.mp hfrom) hleast, hget⟩

theorem next_eq_none_iff : d.next start = none ↔ d.keys = [] := by
  rw [next, Option.or_eq_none_iff, firstFrom_eq_none_iff, firstGroup_eq_none_iff]
  simp only [SortedMap.get?_eq_none_iff, ← List.eq_nil_iff_forall_not_mem]
  constructor
  · exact And.right
  · intro hnone
    rw [hnone]
    exact ⟨List.forall_mem_nil _, rfl⟩

/-- From a row with a group one gets to this group. -/
theorem next_self (hget : d.get? row = some g) : d.next row = some (row, g) := by
  have hrow : row ∈ d.keys := SortedMap.mem_keys_iff.mpr ⟨g, hget⟩
  cases hnext : d.next row with
  | none => exact absurd (next_eq_none_iff.mp hnext) (List.ne_nil_of_mem hrow)
  | some entry =>
      obtain ⟨r, k⟩ := entry
      obtain ⟨hr, hk⟩ := nextRow_of_next hnext
      obtain rfl : r = row := hr.eq_of_mem hrow
      obtain rfl : g = k := Option.some.inj (hget.symm.trans hk)
      rfl

end Diagnostics

namespace Editor

/-- The row of the cursor of a document, the first one if there is no cursor. -/
def cursorRow (e : Editor) (doc : DocumentId) : Row :=
  match e.cursors.get? doc with
  | some p => p.row
  | none => 0

theorem cursorRow_of_get? {e : Editor} {doc : DocumentId} {p : Position}
    (h : e.cursors.get? doc = some p) : e.cursorRow doc = p.row := by
  rw [cursorRow, h]

theorem get?_setCursor {e : Editor} (hsteers : e.manner.Steers) (doc : DocumentId) (p : Position) :
    (e.setCursor doc p).cursors.get? doc = some p :=
  hsteers e.documents doc p e.cursors

/-- Asking for a cursor and for the text that the status bar has. -/
theorem setStatus_setCursor (e : Editor) (doc : DocumentId) (p : Position) :
    (e.setCursor doc p).setStatus e.status = { e with
      cursors := e.manner.land e.documents doc p e.cursors
      journal := e.journal ++ [.setCursor doc p, .setStatus e.status] } := by
  simp [setCursor, setStatus, note]

end Editor

namespace Session

variable {σ : Type u} {sv : Services σ} {s : Session σ} {doc : DocumentId}

/-! ### At an issue -/

/-- The session after the cursor of a document came to an issue that the status bar then shows. -/
def atIssue (s : Session σ) (doc : DocumentId) (i : Issue) : Session σ :=
  { s with
    renderer := { s.renderer with displayed := some (doc, i) }
    editor := (s.editor.setCursor doc i.position).setStatus (some i.statusText) }

/-- The status bar stays as it is if the issue is there already. -/
theorem atIssue_of_displayed {i : Issue} (hshown : s.renderer.displayed = some (doc, i))
    (hcaption : s.editor.status = some i.statusText) :
    s.atIssue doc i =
      { s with editor := (s.editor.setCursor doc i.position).setStatus s.editor.status } := by
  rw [atIssue, hcaption, ← hshown]

theorem updateStatus_of_chooses {shown : Option (DocumentId × Issue)} (h : Chooses s.store s.editor shown) :
    s.updateStatus = { s with
      renderer := { s.renderer with displayed := shown }
      editor := s.editor.setStatus (shown.map fun x => x.2.statusText) } := by
  rw [← h.choice_eq]
  rfl

/-- With the cursor on the first issue of a group the status bar is about that issue. -/
theorem updateStatus_setCursor (hactive : s.editor.active = some doc) (hsteers : s.editor.manner.Steers)
    (hgroup : s.store.group? doc g.first.row = some g) :
    { s with editor := s.editor.setCursor doc g.first.position }.updateStatus = s.atIssue doc g.first := by
  have hcursor := Editor.get?_setCursor hsteers doc g.first.position
  have hchooses : Chooses s.store (s.editor.setCursor doc g.first.position) (some (doc, g.first)) :=
    .cursorRow hactive hcursor hgroup
  exact updateStatus_of_chooses (s := { s with editor := s.editor.setCursor doc g.first.position }) hchooses

/-! ### On to the next row -/

theorem goToNext_eq (hactive : s.editor.active = some doc) :
    s.goToNext = match (s.store.diagnostics doc).next (s.editor.cursorRow doc) with
      | none => (none, s)
      | some (_, g) => (some g.first.position,
          { s with editor := s.editor.setCursor doc g.first.position }.updateStatus) := by
  rw [goToNext, hactive]
  rfl

theorem goToNext_of_rows_eq_nil (hactive : s.editor.active = some doc) (hrows : s.store.rows doc = []) :
    s.goToNext = (none, s) := by
  rw [goToNext_eq hactive, Diagnostics.next_eq_none_iff.mpr hrows]

/-- The cursor comes to the next row, and the status bar shows the issue it comes to: stored issues are on
the rows of their groups. -/
theorem exists_goToNext (hs : s.Backed) (hactive : s.editor.active = some doc)
    (hsteers : s.editor.manner.Steers) (hrows : s.store.rows doc ≠ []) :
    ∃ row g, NextRow (s.store.rows doc) (s.editor.cursorRow doc) row ∧
      s.store.group? doc row = some g ∧ g.first.row = row ∧
      s.goToNext = (some g.first.position, s.atIssue doc g.first) := by
  cases hnext : (s.store.diagnostics doc).next (s.editor.cursorRow doc) with
  | none => exact absurd (Diagnostics.next_eq_none_iff.mp hnext) hrows
  | some entry =>
      obtain ⟨row, g⟩ := entry
      obtain ⟨hrow, hgroup⟩ := Diagnostics.nextRow_of_next hnext
      have hfirst : g.first.row = row := hs.onRows doc row g hgroup g.first g.first_mem
      refine ⟨row, g, hrow, hgroup, hfirst, ?_⟩
      rw [goToNext_eq hactive, hnext]
      dsimp only
      rw [updateStatus_setCursor hactive hsteers (hfirst.symm ▸ hgroup)]

/-- Going on from an issue leads back to it. -/
theorem goToNext_atIssue (hactive : s.editor.active = some doc) (hsteers : s.editor.manner.Steers)
    (hgroup : s.store.group? doc g.first.row = some g) :
    let t := s.atIssue doc g.first
    t.goToNext = (some g.first.position,
      { t with editor := (t.editor.setCursor doc g.first.position).setStatus t.editor.status }) := by
  intro t
  have hcursor : t.editor.cursorRow doc = g.first.row :=
    Editor.cursorRow_of_get? (Editor.get?_setCursor hsteers doc g.first.position)
  have hnext : (t.store.diagnostics doc).next g.first.row = some (g.first.row, g) :=
    Diagnostics.next_self hgroup
  rw [goToNext_eq (s := t) hactive, hcursor, hnext]
  dsimp only
  rw [updateStatus_setCursor (s := t) hactive hsteers hgroup, atIssue_of_displayed (s := t) rfl rfl]

/-- Going on with a document without issues does nothing. Otherwise the cursor comes to the first issue of
the next row, on this row and at the character of the issue, and the status bar shows this issue; nothing
else changes. Going on at once leads to the same place: the editor is asked for the same cursor and the same
status text again. -/
theorem goToNext_shows_issue (hs : Reachable sv s) (hactive : s.editor.active = some doc)
    (hsteers : s.editor.manner.Steers) :
    (s.store.rows doc = [] → s.goToNext = (none, s)) ∧
    (s.store.rows doc ≠ [] → ∃ row g,
      NextRow (s.store.rows doc) (s.editor.cursorRow doc) row ∧ s.store.group? doc row = some g ∧
      let p := g.first.position
      let t := s.goToNext.2
      s.goToNext.1 = some p ∧ p.row = row ∧ p.column.toNat = g.first.character.toNat - 1 ∧
      t = { s with
        renderer := { s.renderer with displayed := some (doc, g.first) }
        editor := (s.editor.setCursor doc p).setStatus (some g.first.statusText) } ∧
      t.editor.cursors.get? doc = some p ∧
      t.goToNext = (some p, { t with editor := (t.editor.setCursor doc p).setStatus t.editor.status }) ∧
      t.goToNext.2.editor.cursors.get? doc = some p ∧
      (t.editor.manner.land t.editor.documents doc p t.editor.cursors = t.editor.cursors →
        t.goToNext.2 = { t with editor := { t.editor with
          journal := t.editor.journal ++ [.setCursor doc p, .setStatus t.editor.status] } })) := by
  refine ⟨goToNext_of_rows_eq_nil hactive, fun hrows => ?_⟩
  obtain ⟨row, g, hnext, hgroup, hrow, hgone⟩ := exists_goToNext hs.backed hactive hsteers hrows
  refine ⟨row, g, hnext, hgroup, ?_⟩
  rw [hgone]
  dsimp only
  rw [goToNext_atIssue hactive hsteers (hrow.symm ▸ hgroup)]
  refine ⟨rfl, hrow, toNat_monus _ _, rfl, ?_, rfl, ?_, fun hrests => ?_⟩
  · exact Editor.get?_setCursor hsteers doc g.first.position
  · exact Editor.get?_setCursor (e := (s.atIssue doc g.first).editor) hsteers doc g.first.position
  · rw [Editor.setStatus_setCursor, hrests]

/-- Issues on rows 0 and 2, and the cursor between them. -/
def strolling : Session Report :=
  shifting.act .reporting (.arranged ⟨SortedMap.insert ∅ ⟨7⟩ ⟨"a\nb\nc\nd", none, "source.js"⟩, some ⟨7⟩,
    SortedMap.insert ∅ ⟨7⟩ ⟨1, 5⟩⟩)

theorem goToNext_shows_issue_strolling :
    Reachable .reporting strolling ∧ strolling.editor.active = some ⟨7⟩ ∧
      strolling.editor.manner.Steers ∧ strolling.goToNext.1 = some ⟨2, 0⟩ ∧
      ∃ row, ∃ g : LineGroup, NextRow [0, 2] 1 row ∧ g.first.position = ⟨row, 0⟩ ∧
        strolling.goToNext.2.renderer.displayed = some (⟨7⟩, g.first) ∧
        strolling.goToNext.2.goToNext.1 = strolling.goToNext.1 ∧
        strolling.goToNext.2.goToNext.2.editor.cursors = strolling.goToNext.2.editor.cursors := by
  have hreachable : Reachable .reporting strolling := Reachable.act ⟨.plain, none, [], {}, _, rfl⟩ _
  have hactive : strolling.editor.active = some ⟨7⟩ := by decide
  have hgone : strolling.goToNext.1 = some ⟨2, 0⟩ := by decide
  have hrows : strolling.store.rows ⟨7⟩ = [0, 2] := by decide
  obtain ⟨-, hissues⟩ := goToNext_shows_issue hreachable hactive steers_plain
  obtain ⟨row, g, hnext, -, hposition, hrow, -, ht, -, hagain, -, hrests⟩ := hissues (by simp [hrows])
  have hp : g.first.position = ⟨2, 0⟩ := Option.some.inj (hposition.symm.trans hgone)
  refine ⟨hreachable, hactive, steers_plain, hgone, row, g, hrows ▸ hnext, ?_, ?_, ?_, ?_⟩
  · rw [← hrow, hp]
  · rw [ht]
  · rw [hagain, hposition]
  · rw [hrests (by rw [hp]; rfl)]

/-! ### Back to the status bar -/

theorem goToDisplayed_of_displayed {i : Issue} (hshown : s.renderer.displayed = some (doc, i))
    (hactive : s.editor.active = some doc) :
    s.goToDisplayed = (some i.position, { s with editor := s.editor.setCursor doc i.position }) := by
  simp only [goToDisplayed, hshown]
  exact if_pos hactive

theorem goToDisplayed_of_elsewhere
    (helsewhere : ∀ doc i, s.renderer.displayed = some (doc, i) → s.editor.active ≠ some doc) :
    s.goToDisplayed = (none, s) := by
  unfold goToDisplayed
  split
  · rfl
  · next doc i hshown => exact if_neg (helsewhere doc i hshown)

/-- With the issue in the status bar one of the active document, the cursor comes to it: to a row that has
issues, the first of which is this one, and an anchor. Nothing else changes, and bringing the status bar up
to date would only ask for the text it has. Otherwise nothing happens. -/
theorem goToDisplayed_shows_issue (hs : Reachable sv s) (hsteers : s.editor.manner.Steers) :
    (∀ doc i, s.renderer.displayed = some (doc, i) → s.editor.active = some doc →
      let p := i.position
      let t := s.goToDisplayed.2
      s.goToDisplayed.1 = some p ∧
      (∃ g, s.store.group? doc p.row = some g ∧ g.first = i) ∧
      p.row ∈ s.store.rows doc ∧
      (∃ h, s.anchors.anchor? doc p.row = some h ∧ (p.row, h) ∈ s.editor.liveAnchors doc) ∧
      t = { s with editor := s.editor.setCursor doc p } ∧
      t.editor.cursors.get? doc = some p ∧
      t.updateStatus = { t with editor := t.editor.setStatus t.editor.status }) ∧
    ((∀ doc i, s.renderer.displayed = some (doc, i) → s.editor.active ≠ some doc) →
      s.goToDisplayed = (none, s)) := by
  refine ⟨fun doc i hshown hactive => ?_, goToDisplayed_of_elsewhere⟩
  obtain ⟨g, hgroup, rfl⟩ := hs.backed.stored doc i hshown
  have hcaption := hs.backed.caption _ hshown
  have hrow : g.first.row ∈ s.store.rows doc := SortedMap.mem_keys_iff.mpr ⟨g, hgroup⟩
  obtain ⟨h, hanchor⟩ := Option.isSome_iff_exists.mp (((hs.consistent.shows doc).rows _).mpr hrow)
  have hlive := Editor.mem_liveAnchors.mpr ⟨_, hs.consistent.held.marker_of_anchor hanchor, rfl, rfl⟩
  rw [goToDisplayed_of_displayed hshown hactive]
  refine ⟨rfl, ⟨g, hgroup, rfl⟩, hrow, ⟨h, hanchor, hlive⟩, rfl, ?_, ?_⟩
  · exact Editor.get?_setCursor hsteers doc g.first.position
  · dsimp only
    rw [updateStatus_setCursor hactive hsteers hgroup, atIssue_of_displayed hshown hcaption]
    rfl

theorem goToDisplayed_shows_issue_strolling :
    Reachable .reporting strolling ∧ strolling.editor.manner.Steers ∧
      strolling.goToDisplayed.1 = some ⟨0, 0⟩ ∧ (0 : Row) ∈ strolling.store.rows ⟨7⟩ ∧
      strolling.goToDisplayed.2.updateStatus.renderer = strolling.renderer := by
  have hreachable : Reachable .reporting strolling := Reachable.act ⟨.plain, none, [], {}, _, rfl⟩ _
  have hshown : strolling.renderer.displayed = some (⟨7⟩, ⟨1, 1, "first", none⟩) := by decide
  obtain ⟨hissue, -⟩ := goToDisplayed_shows_issue hreachable steers_plain
  obtain ⟨hposition, -, hrow, -, ht, -, hposted⟩ := hissue _ _ hshown (by decide)
  refine ⟨hreachable, steers_plain, hposition, hrow, ?_⟩
  rw [hposted, ht]

end Session

end LintMargin
