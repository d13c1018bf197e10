import LintMargin.Proofs.Margin.Displaced
import LintMargin.Proofs.Session.Relint
import LintMargin.Text.Lines

/-!
# Anchors and the lines they were made for

An editor moves its anchors along with their lines, and a session holds an anchor by the row on which it
was made. So a row that has issues before and after some lines are put in front of it keeps an anchor that
has moved on. `anchors_after_pass` says where all anchors of a document are after a pass, and when they are
where the issues are.
-/

namespace LintMargin

universe u

/-! ### Changes of whole lines -/

inductive LineEdit where
  /-- Lines are put in front of a row. -/
  | insert (above : Row) (lines : List String)
  /-- So many lines are deleted, from a row on. Where the anchors on them go is up to the editor. -/
  | delete (first : Row) (count : UInt32) (landing : Row → Row)

namespace LineEdit

/-- The lines afterwards. -/
def apply : LineEdit → List (List Char) → List (List Char)
  | .insert above added, lines =>
    lines.take above.toNat ++ added.map String.toList ++ lines.drop above.toNat
  | .delete first count _, lines =>
    lines.take first.toNat ++ lines.drop (first.toNat + count.toNat)

/-- The row of an anchor afterwards: an anchor stays on its line. -/
def move : LineEdit → Row → Row
  | .insert above added, row => if above ≤ row then row + UInt32.ofNat added.length else row
  | .delete first count landing, row =>
    if row < first then row else if row - first < count then landing row else row - count

/-- The text afterwards. -/
def text (change : LineEdit) (before : String) : String :=
  String.ofList (Text.join ['\n'] (change.apply (Text.split '\n' before.toList)))

/-- Whether a line is there afterwards, on a row that can be numbered. -/
def Spares : LineEdit → Row → Prop
  | .insert _ added, row => row.toNat + added.length < UInt32.size
  | .delete first count _, row => row < first ∨ first.toNat + count.toNat ≤ row.toNat

/-- A line that is spared is where its anchor is. -/
theorem getElem?_move {change : LineEdit} {row : Row} (hrow : change.Spares row)
    {lines : List (List Char)} (hlines : row.toNat < lines.length) :
    (change.apply lines)[(change.move row).toNat]? = lines[row.toNat]? := by
  cases change with
  | insert above added =>
      have hsize : row.toNat + added.length < UInt32.size := hrow
      rw [apply, move]
      split
      · next habove =>
          rw [UInt32.le_iff_toNat_le] at habove
          have hadded : (UInt32.ofNat added.length).toNat = added.length :=
            UInt32.toNat_ofNat_of_lt' (by omega)
          have hmoved : (row + UInt32.ofNat added.length).toNat = row.toNat + added.length := by
            rw [UInt32.toNat_add, hadded]
            exact Nat.mod_eq_of_lt hsize
          rw [hmoved, List.getElem?_append_right (by simp; omega), List.getElem?_drop]
          congr 1
          simp
          omega
      · next habove =>
          rw [UInt32.le_iff_toNat_le] at habove
          rw [List.append_assoc, List.getElem?_append_left (by simp; omega),
            List.getElem?_take_of_lt (by omega)]
  | delete first count landing =>
      rw [apply, move]
      split
      · next hfirst =>
          rw [UInt32.lt_iff_toNat_lt] at hfirst
          rw [List.getElem?_append_left (by simp; omega), List.getElem?_take_of_lt hfirst]
      · next hfirst =>
          have hbehind : first.toNat + count.toNat ≤ row.toNat := hrow.resolve_left hfirst
          have hnot : ¬ row - first < count := by
            rw [UInt32.lt_iff_toNat_lt, UInt32.toNat_sub_of_le _ _ (UInt32.not_lt.mp hfirst)]
            omega
          have hmoved : (row - count).toNat = row.toNat - count.toNat :=
            UInt32.toNat_sub_of_le _ _ (UInt32.le_iff_toNat_le.mpr (by omega))
          rw [if_neg hnot, hmoved, List.getElem?_append_right (by simp; omega), List.getElem?_drop]
          congr 1
          simp
          omega

end LineEdit

/-- Changes whole lines of a document, with which its anchors move. -/
def Editor.editLines (e : Editor) (doc : DocumentId) (change : LineEdit) : Editor :=
  { e with
    documents := e.documents.modify doc fun d => { d with text := change.text d.text }
    markers := e.markers.mapValues fun _ m =>
      if m.doc = doc then { m with row := change.move m.row } else m }

/-- What happens between two lines of a run: something of which a session is told, or whole lines of a
document are changed. -/
inductive Turn (σ : Type u) where
  | act (a : Act σ)
  | edit (doc : DocumentId) (change : LineEdit)

namespace Session

variable {σ : Type u} {moved : Handle → Option Row}

def turn (sv : Services σ) (s : Session σ) : Turn σ → Session σ
  | .act a => s.act sv a
  | .edit doc change => { s with editor := s.editor.editLines doc change }

/-- The session after some turns. -/
def turned (sv : Services σ) (s : Session σ) (turns : List (Turn σ)) : Session σ :=
  turns.foldl (turn sv) s

/-! ### Sessions with moved anchors -/

def displaced (moved : Handle → Option Row) (s : Session σ) : Session σ :=
  { s with editor := s.editor.displaced moved }

/-- The session is as a consistent one would be if its anchors were moved. -/
def Drifted (moved : Handle → Option Row) (s : Session σ) : Prop :=
  ∃ u : Session σ, u.Consistent ∧ u.editor.Supports moved ∧ s = u.displaced moved

theorem draw_displaced {u : Session σ} (hu : u.editor.Supports moved) (doc : DocumentId) :
    (u.displaced moved).draw doc = (u.draw doc).displaced moved ∧
      (u.draw doc).editor.Supports moved := by
  obtain ⟨hdrawn, hsupports⟩ := u.renderer.draw_displaced u.store u.anchors doc hu
  refine ⟨?_, hsupports⟩
  simp only [draw, displaced, hdrawn]

theorem render_displaced {u : Session σ} (hu : u.editor.Supports moved) (doc : DocumentId) :
    (u.displaced moved).render doc = (u.render doc).displaced moved ∧
      (u.render doc).editor.Supports moved := by
  obtain ⟨hdrawn, hsupports⟩ := draw_displaced hu doc
  refine ⟨?_, hsupports⟩
  rw [render_eq, hdrawn, render_eq]
  rfl

theorem forgetDiagnostics_displaced (u : Session σ) (doc : DocumentId) :
    (u.displaced moved).forgetDiagnostics doc = (u.forgetDiagnostics doc).displaced moved := by
  simp only [forgetDiagnostics, displaced, Anchors.removeAll, Renderer.clearDocument,
    Anchors.destroyAll_displaced, Renderer.releaseAll_displaced]

theorem supports_forgetDiagnostics {u : Session σ} (hu : u.editor.Supports moved) (doc : DocumentId) :
    (u.forgetDiagnostics doc).editor.Supports moved := by
  simp only [forgetDiagnostics, Anchors.removeAll, Renderer.clearDocument, Anchors.destroyAll_eq,
    Renderer.releaseAll_eq]
  exact hu

/-- Moves do not depend on where the anchors are. -/
theorem Move.drifted {s t : Session σ} (hmove : Move s t) (hs : Drifted moved s) : Drifted moved t := by
  obtain ⟨u, hu, hsupports, rfl⟩ := hs
  cases hmove with
  | aside h =>
      have haside : Aside u { t with editor.markers := u.editor.markers } :=
        ⟨h.store, h.anchors, h.renderer, rfl, h.tooltips, h.status, h.manner, h.issued⟩
      refine ⟨_, hu.move (.aside haside), hsupports.mono h.manner h.issued, ?_⟩
      have hmarkers : t.editor.markers = (u.editor.displaced moved).markers := h.markers
      change t = { t with editor.markers := (u.editor.displaced moved).markers }
      rw [← hmarkers]
  | refresh => exact ⟨u.updateStatus, hu.updateStatus, hsupports, rfl⟩
  | render doc =>
      obtain ⟨hrendered, hsupports'⟩ := render_displaced hsupports doc
      exact ⟨u.render doc, hu.move (.render u doc), hsupports', hrendered⟩
  | replace doc d hd =>
      have hstored : Editor.Supports { u with store := u.store.insert doc d }.editor moved := hsupports
      obtain ⟨hrendered, hsupports'⟩ := render_displaced hstored doc
      exact ⟨_, hu.move (.replace u doc d hd), hsupports', hrendered⟩
  | forget doc =>
      refine ⟨_, hu.move (.forget u doc), supports_forgetDiagnostics hsupports doc, ?_⟩
      rw [forgetDiagnostics_displaced]
      rfl

/-- When lines are changed, the anchors are moved to other rows. -/
theorem Drifted.edit {s : Session σ} (hs : Drifted moved s) (doc : DocumentId) (change : LineEdit) :
    ∃ moved', Drifted moved' { s with editor := s.editor.editLines doc change } := by
  obtain ⟨u, hu, -, rfl⟩ := hs
  let edited := (u.editor.displaced moved).editLines doc change
  let v : Session σ := { u with editor.documents := edited.documents }
  have hv : v.Consistent := hu.congr rfl rfl rfl rfl rfl rfl (Nat.le_refl _)
  -- The marker of each handle, and where it is now.
  have hmarker : ∀ h, ∃ row, edited.markers.get? h =
      (u.editor.markers.get? h).map fun m => { m with row := row } := by
    intro h
    simp only [edited, Editor.editLines, SortedMap.get?_mapValues, Editor.get?_displaced]
    cases u.editor.markers.get? h with
    | none => exact ⟨0, rfl⟩
    | some m =>
        by_cases hdoc : m.doc = doc
        · exact ⟨change.move ((moved h).getD m.row), by simp [hdoc]⟩
        · exact ⟨(moved h).getD m.row, by simp [hdoc]⟩
  refine ⟨fun h => (edited.markers.get? h).map Marker.row, v, hv, fun h row hrow => ?_, ?_⟩
  · obtain ⟨r, hr⟩ := hmarker h
    cases hm : u.editor.markers.get? h with
    | none => simp [hr, hm] at hrow
    | some m => exact hv.held.anchor_issued h m hm
  · have hmarkers : edited.markers =
        (v.editor.displaced fun h => (edited.markers.get? h).map Marker.row).markers := by
      apply SortedMap.ext
      intro h
      obtain ⟨r, hr⟩ := hmarker h
      rw [Editor.get?_displaced, hr]
      change _ = (u.editor.markers.get? h).map _
      cases u.editor.markers.get? h <;> rfl
    exact congrArg (fun markers =>
      { v with editor := { v.editor with markers } }) hmarkers

theorem drifted_turned (sv : Services σ) (manner : Manner) (status : Option String) (services : σ)
    (settings : Settings) (turns : List (Turn σ)) :
    ∃ moved, Drifted moved ((start (.fresh manner status) services settings).turned sv turns) := by
  have hstart : Drifted (fun _ => none) (start (.fresh manner status) services settings) :=
    ⟨_, consistent_start manner status services settings, (fun _ _ hmoved => nomatch hmoved), rfl⟩
  refine List.foldlRecOn (motive := fun s => ∃ moved, Drifted moved s) turns (turn sv)
    ⟨_, hstart⟩ fun s hs next _ => ?_
  obtain ⟨moved, hs⟩ := hs
  cases next with
  | act a => exact ⟨moved, (act_moves sv s a).keep (fun _ _ hmove h => hmove.drifted h) hs⟩
  | edit doc change => exact hs.edit doc change

/-! ### A pass over a document with moved anchors -/

/-- A pass that lints does not depend on where the anchors are. -/
theorem runPass_displaced {sv : Services σ} {u : Session σ} (hu : u.editor.Supports moved)
    {doc : DocumentId} {rows : Nat} (hlinted : ((u.displaced moved).runPass sv doc).1 = .linted rows) :
    (u.displaced moved).runPass sv doc =
      ((u.runPass sv doc).1, (u.runPass sv doc).2.displaced moved) := by
  obtain ⟨d, hdoc, hgrammar, hexcluded, hconfig, hpass⟩ := exists_lintDocument_of_linted hlinted
  have hlookedUp : (u.displaced moved).lookUp sv d =
      ((u.lookUp sv d).1, (u.lookUp sv d).2.displaced moved) := by
    unfold lookUp
    cases d.path <;> rfl
  have hsupports : ((u.lookUp sv d).2.stored sv doc d (u.lookUp sv d).1).editor.Supports moved :=
    hu.mono (aside_lookUp sv d u).manner (aside_lookUp sv d u).issued
  have hrendered := (render_displaced hsupports doc).1
  rw [hlookedUp] at hconfig hpass
  have hplain : u.runPass sv doc = (u.lookUp sv d).2.lintDocument sv doc d (u.lookUp sv d).1 :=
    runPass_eq_lintDocument hdoc hgrammar ((isExcluded_congr sv d rfl).symm.trans hexcluded) hconfig
  rw [hpass, hplain, lintDocument_eq, lintDocument_eq]
  exact Prod.ext rfl (congrArg (fun t => Session.setPhase t doc .annotated) hrendered)

/-- The anchors that a pass makes have names that were not in use. -/
theorem anchor?_runPass {sv : Services σ} {u : Session σ} {doc d : DocumentId} {rows : Nat}
    (hlinted : (u.runPass sv doc).1 = .linted rows) {row : Row} {h : Handle}
    (hanchor : (u.runPass sv doc).2.anchors.anchor? d row = some h) :
    u.anchors.anchor? d row = some h ∨ ¬ u.editor.Issued h := by
  obtain ⟨contents, -, -, -, -, hpass⟩ := exists_lintDocument_of_linted hlinted
  have hlookedUp := aside_lookUp sv contents u
  rw [hpass, lintDocument_eq] at hanchor
  rcases Renderer.anchor?_draw _ _ _ doc _ hanchor with hkept | hnew
  · exact .inl (hlookedUp.anchors ▸ hkept)
  · exact .inr fun hissued => hnew (hissued.mono hlookedUp.manner hlookedUp.issued)

/-- Where the anchors of a document are after a pass from `s` to `t`: each is held under a row with issues
and is at its place, which is that row if there were no issues before, and otherwise where the anchor of
the row was all the time. -/
structure Anchored (s t : Session σ) (doc : DocumentId) (place : Row → Row) (name : Row → Handle) :
    Prop where
  live : (t.editor.liveAnchors doc).Perm
    ((t.store.rows doc).map fun row => (place row, name row))
  distinct : ((t.store.rows doc).map name).Nodup
  fresh : ∀ row ∈ t.store.rows doc, row ∉ s.store.rows doc → place row = row
  stayed : ∀ row ∈ t.store.rows doc, row ∈ s.store.rows doc →
    s.anchors.anchor? doc row = some (name row) ∧ (place row, name row) ∈ s.editor.liveAnchors doc

theorem liveAnchors_displaced (e : Editor) (doc : DocumentId) :
    (e.displaced moved).liveAnchors doc =
      (e.liveAnchors doc).map fun x => ((moved x.2).getD x.1, x.2) := by
  simp only [Editor.liveAnchors, Editor.displaced, SortedMap.mapValues, List.filterMap_map,
    List.map_filterMap]
  refine List.filterMap_congr fun x _ => ?_
  simp only [Function.comp_apply]
  split <;> rfl

/-- The anchors of a consistent session, each with the row it is held under. -/
theorem Consistent.liveAnchors_perm_map {u : Session σ} (hu : u.Consistent) {doc : DocumentId}
    {name : Row → Handle}
    (hname : ∀ row ∈ u.store.rows doc, u.anchors.anchor? doc row = some (name row)) :
    (u.editor.liveAnchors doc).Perm ((u.store.rows doc).map fun row => (row, name row)) := by
  have hentries : (u.anchors.ofDocument doc).entries =
      (u.anchors.rows doc).map fun row => (row, name row) := by
    rw [Anchors.rows, SortedMap.keys, List.map_map]
    refine (List.map_id _).symm.trans (List.map_congr_left fun x hx => ?_)
    have hx' : u.anchors.anchor? doc x.1 = some x.2 := SortedMap.get?_eq_some_iff.mpr hx
    have hrow : x.1 ∈ u.store.rows doc := ((hu.shows doc).rows x.1).mp (by rw [hx']; rfl)
    exact Prod.ext rfl (Option.some.inj (hx'.symm.trans (hname x.1 hrow)))
  rw [← hu.rows_eq, ← hentries]
  exact hu.liveAnchors_perm doc

theorem exists_anchored {sv : Services σ} {s : Session σ} (hs : Drifted moved s) {doc : DocumentId}
    {rows : Nat} (hlinted : (s.runPass sv doc).1 = .linted rows) :
    ∃ place name, Anchored s (s.runPass sv doc).2 doc place name := by
  obtain ⟨u, hu, hsupports, rfl⟩ := hs
  have hpass := runPass_displaced hsupports hlinted
  rw [hpass] at hlinted ⊢
  have hafter : (u.runPass sv doc).2.Consistent := (runPass_moves sv doc u).consistent hu
  obtain ⟨d, -, hstore, -, -, -, -, hkept⟩ := runPass_redrawn hu hlinted
  have hrows : (u.runPass sv doc).2.store.rows doc = (diagnosticsOf u.settings d
      (.ofAnswer ((u.lookUp sv d).2.linterAnswer sv d (u.lookUp sv d).1))).keys := by
    rw [hstore, Store.rows, Store.diagnostics_insert_self]
  rw [← hrows] at hkept
  obtain ⟨name, hname⟩ := hafter.exists_names doc
  refine ⟨fun row => (moved (name row)).getD row, name, ?_, ?_, ?_, ?_⟩
  · have hlive := (hafter.liveAnchors_perm_map hname).map
      fun x : Row × Handle => ((moved x.2).getD x.1, x.2)
    rw [← liveAnchors_displaced, List.map_map] at hlive
    exact hlive
  · refine List.Nodup.map_on (fun row hrow r hr heq => ?_) (SortedMap.keys_nodup _)
    exact (hafter.held.anchor_inj (hname row hrow) (heq ▸ hname r hr)).2
  · intro row hrow hnew
    have habsent := hu.anchor?_eq_none hnew
    rcases anchor?_runPass hlinted (hname row hrow) with hold | hfresh
    · rw [habsent] at hold
      cases hold
    · cases hmoved : moved (name row) with
      | none => rfl
      | some r => exact absurd (hsupports _ r hmoved) hfresh
  · intro row hrow hold
    obtain ⟨h, ha⟩ := Option.isSome_iff_exists.mp (((hu.shows doc).rows row).mpr hold)
    obtain rfl : h = name row :=
      Option.some.inj ((hkept row h hrow ha).symm.trans (hname row hrow))
    refine ⟨ha, Editor.mem_liveAnchors.mpr
      ⟨⟨doc, (moved (name row)).getD row, Decoration.both⟩, ?_, rfl, rfl⟩⟩
    change (u.editor.displaced moved).markers.get? (name row) = _
    rw [Editor.get?_displaced, hu.held.marker_of_anchor ha]
    rfl

/-- The anchors are where the issues are if those of the rows that had issues before are. -/
theorem Anchored.rows_perm_iff {s t : Session σ} {doc : DocumentId} {place : Row → Row}
    {name : Row → Handle} (h : Anchored s t doc place name) :
    let stay := (t.store.rows doc).filter (s.store.rows doc).contains
    ((t.editor.liveAnchors doc).map Prod.fst).Perm (t.store.rows doc) ↔ (stay.map place).Perm stay := by
  intro stay
  let come := (t.store.rows doc).filter fun row => !(s.store.rows doc).contains row
  have hplaces : ((t.editor.liveAnchors doc).map Prod.fst).Perm ((t.store.rows doc).map place) := by
    have hlive := h.live.map Prod.fst
    rwa [List.map_map] at hlive
  have hparts : (stay ++ come).Perm (t.store.rows doc) := List.filter_append_perm _ _
  have hcome : come.map place = come := by
    refine (List.map_congr_left fun row hrow => ?_).trans (List.map_id come)
    obtain ⟨hin, hnew⟩ := List.mem_filter.mp hrow
    exact h.fresh row hin (by simpa using hnew)
  have hmoved : ((t.store.rows doc).map place).Perm (stay.map place ++ come) := by
    have hmap := (hparts.map place).symm
    rwa [List.map_append, hcome] at hmap
  constructor
  · intro hall
    have hperm := (hmoved.symm.trans (hplaces.symm.trans hall)).trans hparts.symm
    exact (List.perm_append_right_iff come).mp hperm
  · intro hstay
    exact (hplaces.trans hmoved).trans (((List.perm_append_right_iff come).mpr hstay).trans hparts)

/-- After any run in which lines are changed between the acts, a pass that lints a document leaves one
anchor for each row with issues, and the anchors are on these rows exactly if those that stay, because
their rows had issues before, have not left them as a whole. -/
theorem anchors_after_pass (sv : Services σ) (manner : Manner) (status : Option String) (services : σ)
    (settings : Settings) (turns : List (Turn σ)) {doc : DocumentId} {rows : Nat}
    (hlinted : ((((start (.fresh manner status) services settings).turned sv turns).runPass sv
      doc).1 = .linted rows)) :
    let s := (start (.fresh manner status) services settings).turned sv turns
    let t := (s.runPass sv doc).2
    let stay := (t.store.rows doc).filter (s.store.rows doc).contains
    ∃ place name, Anchored s t doc place name ∧
      (((t.editor.liveAnchors doc).map Prod.fst).Perm (t.store.rows doc) ↔
        (stay.map place).Perm stay) := by
  intro s t stay
  obtain ⟨moved, hs⟩ := drifted_turned sv manner status services settings turns
  obtain ⟨place, name, hanchored⟩ := exists_anchored hs hlinted
  exact ⟨place, name, hanchored, hanchored.rows_perm_iff⟩

/-- A document with an issue on its second line, in front of which a line was put, about to have an issue
on its second line again. -/
def drifting : Session Report :=
  (start .empty [] {}).turned .reporting
    [.act (.arranged ⟨SortedMap.insert ∅ ⟨1⟩ ⟨"start();\nwork()\n", none, "source.js"⟩, some ⟨1⟩, ∅⟩),
      .act (.served [some ⟨2, 7, "Missing semicolon.", none⟩]), .act (.passed ⟨1⟩),
      .edit ⟨1⟩ (.insert 0 ["var a = 1;"]),
      .act (.served [some ⟨2, 1, "Unexpected start.", none⟩])]

theorem anchors_after_pass_drifting :
    (drifting.runPass .reporting ⟨1⟩).1 = .linted 1 ∧
      ∃ place name, Anchored drifting (drifting.runPass .reporting ⟨1⟩).2 ⟨1⟩ place name := by
  have hlinted : (drifting.runPass .reporting ⟨1⟩).1 = .linted 1 := by decide
  obtain ⟨place, name, hanchored, -⟩ := anchors_after_pass .reporting .plain none [] {} _ hlinted
  exact ⟨hlinted, place, name, hanchored⟩

/-- The issue is on one row, and the only anchor on another. -/
theorem anchor_left_its_row :
    let t := (drifting.runPass .reporting ⟨1⟩).2
    drifting.editor.documents.get? ⟨1⟩ =
      some ⟨"var a = 1;\nstart();\nwork()\n", none, "source.js"⟩ ∧
    (drifting.runPass .reporting ⟨1⟩).1 = .linted 1 ∧
    t.store.rows ⟨1⟩ = [1] ∧ t.editor.liveAnchors ⟨1⟩ = [(2, ⟨1⟩)] ∧
    ¬ ((t.editor.liveAnchors ⟨1⟩).map Prod.fst).Perm (t.store.rows ⟨1⟩) := by
  decide

end Session

end LintMargin
