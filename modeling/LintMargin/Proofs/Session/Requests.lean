import LintMargin.Proofs.Session.Display

/-!
# The requests of a pass

All that a pass asks of the editor and the services while it lints a document, in order.
`runPass_redrawn` lists it; the lemmas after it pick single kinds of requests out of such a list.
-/

namespace LintMargin

universe u

/-! ### Kinds of requests -/

namespace Call

/-- The anchor that is destroyed, with its document. -/
def destroyed? : Call → Option (DocumentId × Handle)
  | .destroy doc h => some (doc, h)
  | _ => none

/-- The tooltip that is released. -/
def released? : Call → Option Handle
  | .releaseTooltip h => some h
  | _ => none

/-- Whether an anchor is made or decorated. -/
def isMarking : Call → Bool
  | .mark .. | .decorate .. => true
  | _ => false

def isTooltip : Call → Bool
  | .showTooltip .. => true
  | _ => false

def isLint : Call → Bool
  | .lint .. => true
  | _ => false

end Call

namespace Session

variable {σ : Type u}

/-- What is asked about a document before it is linted. -/
def lookUps (d : Document) : List Call :=
  match d.path with
  | some path => [.isIgnored path, .resolve path]
  | none => []

theorem journal_lookUp (sv : Services σ) (d : Document) (s : Session σ) :
    (s.lookUp sv d).2.editor.journal = s.editor.journal ++ lookUps d := by
  unfold lookUp lookUps
  cases d.path with
  | none => simp
  | some path => simp [Editor.note]

/-- The request for a linter. -/
def lintCall (settings : Settings) (d : Document) (config : LintConfig) : Call :=
  .lint (prepare settings d).1 (prepare settings d).2.source config.options config.globals?

/-- The requests that draw groups with the given tooltips. -/
def drawings (doc : DocumentId) (before after : Anchors) (entries : List (Row × LineGroup))
    (made : List Handle) : List Call :=
  (entries.zip made).flatMap fun x =>
    before.markings after doc x.1.1 ++ [.showTooltip doc x.2 (Tooltip.ofGroup x.1)]

/-- What is asked of the margin: first everything is taken away that has to go. -/
def changes (doc : DocumentId) (gone shown : List Handle) (drawn : List Call)
    (status : Option String) : List Call :=
  gone.map (.destroy doc) ++ shown.map .releaseTooltip ++ (drawn ++ [.setStatus status])

/-- The requests of a pass that lints a document. -/
def requests (settings : Settings) (d : Document) (config : LintConfig) (doc : DocumentId)
    (gone shown : List Handle) (drawn : List Call) (status : Option String) : List Call :=
  lookUps d ++ lintCall settings d config :: changes doc gone shown drawn status

/-! ### A pass makes these requests -/

/-- All that linting a document does once its configuration is known. -/
theorem lintDocument_redrawn (sv : Services σ) (doc : DocumentId) (d : Document) (config : LintConfig)
    {s : Session σ} (hheld : Held s.renderer.handles s.anchors s.editor) :
    let found := diagnosticsOf s.settings d (.ofAnswer (s.linterAnswer sv d config))
    let t := (s.lintDocument sv doc d config).2
    t.store = s.store.insert doc found ∧
    ∃ made, made.length = found.entries.length ∧
      t.editor.journal = s.editor.journal ++ lintCall s.settings d config ::
        changes doc (s.anchors.stale doc found.keys) (s.renderer.handles doc)
          (drawings doc s.anchors t.anchors found.entries made) t.editor.status ∧
      ∀ row h, row ∈ found.keys → s.anchors.anchor? doc row = some h →
        t.anchors.anchor? doc row = some h := by
  intro found t
  have hdiagnostics : (s.stored sv doc d config).store.diagnostics doc = found :=
    Store.diagnostics_insert_self s.store doc found
  have hstored : Held (s.stored sv doc d config).renderer.handles (s.stored sv doc d config).anchors
      (s.stored sv doc d config).editor :=
    hheld.congr rfl rfl rfl (Nat.le_refl _)
  obtain ⟨made, hredrawn⟩ := Renderer.exists_redrawn hstored (s.stored sv doc d config).store doc
  have hshown := congrArg List.length hredrawn.shown
  have hkept := hredrawn.kept
  have hrequests := hredrawn.journal
  rw [Store.rows, hdiagnostics] at hrequests hkept
  rw [hdiagnostics, List.length_map, List.length_map] at hshown
  refine ⟨rfl, made, hshown, ?_, hkept⟩
  have hdrawn := congrArg (· ++ [Call.setStatus t.editor.status]) hrequests
  refine Eq.trans hdrawn ?_
  change s.editor.journal ++ [lintCall s.settings d config] ++ _ ++ _ = _
  simp only [changes, List.append_assoc, List.cons_append]
  rfl

/-- All that a pass does that lints a document of a consistent session. -/
theorem runPass_redrawn {sv : Services σ} {s : Session σ} (hs : s.Consistent) {doc : DocumentId}
    {rows : Nat} (hlinted : (s.runPass sv doc).1 = .linted rows) :
    ∃ d, s.editor.documents.get? doc = some d ∧
      let config := (s.lookUp sv d).1
      let found := diagnosticsOf s.settings d
        (.ofAnswer ((s.lookUp sv d).2.linterAnswer sv d config))
      let t := (s.runPass sv doc).2
      t.store = s.store.insert doc found ∧ rows = found.size ∧
      ∃ made, made.length = found.entries.length ∧
        t.editor.journal = s.editor.journal ++ requests s.settings d config doc
          (s.anchors.stale doc found.keys) (s.renderer.handles doc)
          (drawings doc s.anchors t.anchors found.entries made) t.editor.status ∧
        ∀ row h, row ∈ found.keys → s.anchors.anchor? doc row = some h →
          t.anchors.anchor? doc row = some h := by
  obtain ⟨d, hdoc, -, -, -, hpass⟩ := exists_lintDocument_of_linted hlinted
  have hlookedUp := aside_lookUp sv d s
  have hheld : Held (s.lookUp sv d).2.renderer.handles (s.lookUp sv d).2.anchors
      (s.lookUp sv d).2.editor := by
    rw [hlookedUp.renderer, hlookedUp.anchors]
    exact hs.held.congr hlookedUp.markers hlookedUp.tooltips hlookedUp.manner hlookedUp.issued
  obtain ⟨hstore, made, hmade, hjournal, hkept⟩ :=
    lintDocument_redrawn sv doc d (s.lookUp sv d).1 hheld
  rw [hlookedUp.store, settings_lookUp] at hstore
  rw [settings_lookUp] at hmade
  rw [journal_lookUp, settings_lookUp, hlookedUp.anchors, hlookedUp.renderer,
    List.append_assoc] at hjournal
  rw [settings_lookUp, hlookedUp.anchors] at hkept
  rw [hpass] at hlinted ⊢
  rw [lintDocument_eq, settings_lookUp] at hlinted
  exact ⟨d, hdoc, hstore, (Outcome.linted.inj hlinted).symm, made, hmade, hjournal, hkept⟩

/-! ### Single kinds of requests -/

theorem mem_lookUps {d : Document} {c : Call} (hc : c ∈ lookUps d) :
    ∃ path, c = .isIgnored path ∨ c = .resolve path := by
  unfold lookUps at hc
  cases hpath : d.path with
  | none => simp [hpath] at hc
  | some path => exact ⟨path, by simpa [hpath] using hc⟩

/-- Looking up a configuration is no matter of the margin. -/
theorem kinds_of_mem_lookUps {d : Document} {c : Call} (hc : c ∈ lookUps d) :
    c.destroyed? = none ∧ c.released? = none ∧ c.isMarking = false ∧ c.isTooltip = false ∧
      c.isLint = false := by
  obtain ⟨path, rfl | rfl⟩ := mem_lookUps hc <;> exact ⟨rfl, rfl, rfl, rfl, rfl⟩

theorem mem_markings {before after : Anchors} {doc : DocumentId} {row : Row} {c : Call}
    (hc : c ∈ before.markings after doc row) :
    ∃ h, before.anchor? doc row = none ∧ after.anchor? doc row = some h ∧
      c ∈ Call.marking doc row h := by
  unfold Anchors.markings at hc
  split at hc
  · next h hbefore hafter => exact ⟨h, hbefore, hafter, hc⟩
  · cases hc

theorem mem_drawings {doc : DocumentId} {before after : Anchors} {entries : List (Row × LineGroup)}
    {made : List Handle} {c : Call} (hc : c ∈ drawings doc before after entries made) :
    (∃ row ∈ entries.map Prod.fst, c ∈ before.markings after doc row) ∨
      ∃ h t, c = .showTooltip doc h t := by
  obtain ⟨x, hx, hc⟩ := List.mem_flatMap.mp hc
  rcases List.mem_append.mp hc with hc | hc
  · exact .inl ⟨x.1.1, List.mem_map_of_mem (List.of_mem_zip hx).1, hc⟩
  · exact .inr ⟨_, _, List.mem_singleton.mp hc⟩

/-- Drawing takes nothing away. -/
theorem kinds_of_mem_drawings {doc : DocumentId} {before after : Anchors}
    {entries : List (Row × LineGroup)} {made : List Handle} {c : Call}
    (hc : c ∈ drawings doc before after entries made) :
    c.destroyed? = none ∧ c.released? = none ∧ c.isLint = false := by
  rcases mem_drawings hc with ⟨row, -, hc⟩ | ⟨h, t, rfl⟩
  · obtain ⟨h, -, -, hc⟩ := mem_markings hc
    simp only [Call.marking, List.mem_cons, List.not_mem_nil, or_false] at hc
    rcases hc with rfl | rfl | rfl <;> exact ⟨rfl, rfl, rfl⟩
  · exact ⟨rfl, rfl, rfl⟩

/-- Drawing marks the rows in the order of their groups. -/
theorem filter_isMarking_drawings (doc : DocumentId) (before after : Anchors)
    {entries : List (Row × LineGroup)} {made : List Handle} (hmade : made.length = entries.length) :
    (drawings doc before after entries made).filter Call.isMarking =
      (entries.map Prod.fst).flatMap (before.markings after doc) := by
  have hgroup : ∀ x : (Row × LineGroup) × Handle,
      (before.markings after doc x.1.1 ++ [Call.showTooltip doc x.2 (Tooltip.ofGroup x.1)]).filter
        Call.isMarking = before.markings after doc x.1.1 := by
    intro x
    have hall : ∀ c ∈ before.markings after doc x.1.1, c.isMarking = true := by
      intro c hc
      obtain ⟨h, -, -, hc⟩ := mem_markings hc
      simp only [Call.marking, List.mem_cons, List.not_mem_nil, or_false] at hc
      rcases hc with rfl | rfl | rfl <;> rfl
    rw [List.filter_append, List.filter_eq_self.mpr hall]
    simp [Call.isMarking]
  rw [drawings, List.filter_flatMap, List.flatMap_congr fun x _ => hgroup x]
  conv_rhs => rw [← List.map_fst_zip (Nat.le_of_eq hmade.symm), List.map_map, List.flatMap_map]
  rfl

section Picks

variable {settings : Settings} {d : Document} {config : LintConfig} {doc : DocumentId}
  {gone shown : List Handle} {before after : Anchors} {entries : List (Row × LineGroup)}
  {made : List Handle} {status : Option String}

theorem filterMap_destroyed?_requests :
    (requests settings d config doc gone shown (drawings doc before after entries made)
      status).filterMap Call.destroyed? = gone.map fun h => (doc, h) := by
  have hasked : (lookUps d).filterMap Call.destroyed? = [] :=
    List.filterMap_eq_nil_iff.mpr fun c hc => (kinds_of_mem_lookUps hc).1
  have hdrawn : (drawings doc before after entries made).filterMap Call.destroyed? = [] :=
    List.filterMap_eq_nil_iff.mpr fun c hc => (kinds_of_mem_drawings hc).1
  simp only [requests, changes, List.filterMap_append, List.filterMap_cons, hasked, hdrawn]
  simp [lintCall, Call.destroyed?, Function.comp_def]

theorem filterMap_released?_requests :
    (requests settings d config doc gone shown (drawings doc before after entries made)
      status).filterMap Call.released? = shown := by
  have hasked : (lookUps d).filterMap Call.released? = [] :=
    List.filterMap_eq_nil_iff.mpr fun c hc => (kinds_of_mem_lookUps hc).2.1
  have hdrawn : (drawings doc before after entries made).filterMap Call.released? = [] :=
    List.filterMap_eq_nil_iff.mpr fun c hc => (kinds_of_mem_drawings hc).2.1
  simp only [requests, changes, List.filterMap_append, List.filterMap_cons, hasked, hdrawn]
  simp [lintCall, Call.released?, Function.comp_def]

theorem filter_isMarking_requests (hmade : made.length = entries.length) :
    (requests settings d config doc gone shown (drawings doc before after entries made)
      status).filter Call.isMarking = (entries.map Prod.fst).flatMap (before.markings after doc) := by
  have hasked : (lookUps d).filter Call.isMarking = [] :=
    List.filter_eq_nil_iff.mpr fun c hc => Bool.not_eq_true _ ▸ (kinds_of_mem_lookUps hc).2.2.1
  simp only [requests, changes, List.filter_append, List.filter_cons, hasked,
    filter_isMarking_drawings doc before after hmade]
  simp [lintCall, Call.isMarking, Function.comp_def, List.filter_map]

theorem filter_isLint_requests :
    (requests settings d config doc gone shown (drawings doc before after entries made)
      status).filter Call.isLint = [lintCall settings d config] := by
  have hasked : (lookUps d).filter Call.isLint = [] :=
    List.filter_eq_nil_iff.mpr fun c hc => Bool.not_eq_true _ ▸ (kinds_of_mem_lookUps hc).2.2.2.2
  have hdrawn : (drawings doc before after entries made).filter Call.isLint = [] :=
    List.filter_eq_nil_iff.mpr fun c hc => Bool.not_eq_true _ ▸ (kinds_of_mem_drawings hc).2.2
  simp only [requests, changes, List.filter_append, List.filter_cons, hasked, hdrawn]
  simp [lintCall, Call.isLint, Function.comp_def, List.filter_map]

/-- Nothing is put up before all is taken away that has to go. -/
theorem exists_requests_eq_append :
    ∃ early late, requests settings d config doc gone shown (drawings doc before after entries made)
        status = early ++ late ∧
      (∀ c ∈ early, c.isMarking = false ∧ c.isTooltip = false) ∧
      ∀ c ∈ late, c.destroyed? = none ∧ c.released? = none := by
  refine ⟨lookUps d ++ lintCall settings d config ::
      (gone.map (.destroy doc) ++ shown.map .releaseTooltip),
    drawings doc before after entries made ++ [.setStatus status], ?_, ?_, ?_⟩
  · simp [requests, changes]
  · intro c hc
    simp only [List.mem_append, List.mem_cons, List.mem_map] at hc
    rcases hc with hc | rfl | ⟨h, -, rfl⟩ | ⟨h, -, rfl⟩
    · exact ⟨(kinds_of_mem_lookUps hc).2.2.1, (kinds_of_mem_lookUps hc).2.2.2.1⟩
    all_goals exact ⟨rfl, rfl⟩
  · intro c hc
    rcases List.mem_append.mp hc with hc | hc
    · exact ⟨(kinds_of_mem_drawings hc).1, (kinds_of_mem_drawings hc).2.1⟩
    · rw [List.mem_singleton.mp hc]
      exact ⟨rfl, rfl⟩

/-! ### Requests about one anchor -/

/-- A request about the anchor on a row, or for one. -/
def Touches (doc : DocumentId) (row : Row) (h : Handle) : Call → Prop
  | .mark d r _ => d = doc ∧ r = row
  | .decorate _ g _ => g = h
  | .destroy _ g => g = h
  | _ => False

theorem touches_requests {row : Row} {h : Handle} {c : Call}
    (hc : c ∈ requests settings d config doc gone shown (drawings doc before after entries made) status)
    (htouch : Touches doc row h c) :
    h ∈ gone ∨
      ∃ r g, before.anchor? doc r = none ∧ after.anchor? doc r = some g ∧ (r = row ∨ g = h) := by
  simp only [requests, changes, List.mem_append, List.mem_cons, List.not_mem_nil, or_false,
    List.mem_map] at hc
  -- Only destroying and drawing are about anchors.
  rcases hc with hc | rfl | (⟨g, hg, rfl⟩ | ⟨g, -, rfl⟩) | hc | rfl
  · obtain ⟨path, rfl | rfl⟩ := mem_lookUps hc <;> exact htouch.elim
  · exact htouch.elim
  · obtain rfl : g = h := htouch
    exact .inl hg
  · exact htouch.elim
  · rcases mem_drawings hc with ⟨r, -, hc⟩ | ⟨g, t, rfl⟩
    · obtain ⟨g, hbefore, hafter, hc⟩ := mem_markings hc
      refine .inr ⟨r, g, hbefore, hafter, ?_⟩
      simp only [Call.marking, List.mem_cons, List.not_mem_nil, or_false] at hc
      rcases hc with rfl | rfl | rfl
      · exact .inl htouch.2
      · exact .inr htouch
      · exact .inr htouch
    · exact htouch.elim
  · exact htouch.elim

end Picks

end Session

end LintMargin
