import LintMargin.Proofs.Session.Requests

/-!
# The steps of a session

Every act is made of steps of eight kinds. A step is about documents of a given kind, and `Step.spares`
says that it leaves all others alone; `Step.lints` counts the requests for a linter by the passes that are
made.
-/

namespace LintMargin

universe u

/-! ### What is asked for -/

namespace Call

/-- The document for which something is put up in the margin, taken away from it or listened to. -/
def doc? : Call → Option DocumentId
  | .mark doc .. | .destroy doc _ | .decorate doc .. | .showTooltip doc .. | .subscribe doc .. =>
    some doc
  | _ => none

/-- Requests that are no matter of margins, listeners and linters. -/
def isNeutral : Call → Bool
  | .setStatus _ | .setCursor .. | .isIgnored _ | .resolve _ | .forgetConfigs => true
  | _ => false

/-- Requests about one document, or about none, and not for a linter. -/
def IsFor (doc : DocumentId) (c : Call) : Prop := c.isLint = false ∧ ∀ d, c.doc? = some d → d = doc

theorem kinds_of_isNeutral {c : Call} (hc : c.isNeutral = true) : c.isLint = false ∧ c.doc? = none := by
  cases c <;> first | exact ⟨rfl, rfl⟩ | exact absurd hc Bool.false_ne_true

theorem IsFor.doc?_ne {c : Call} {doc d : DocumentId} (hc : c.IsFor doc) (hd : doc ≠ d) :
    c.doc? ≠ some d :=
  fun heq => hd (hc.2 d heq).symm

end Call

namespace Editor

/-- Between the two, nothing was asked for but what passes the test. -/
def Asked (test : Call → Prop) (e f : Editor) : Prop :=
  ∃ calls, f.journal = e.journal ++ calls ∧ ∀ c ∈ calls, test c

variable {test : Call → Prop} {e f g : Editor}

theorem Asked.refl (e : Editor) : e.Asked test e := ⟨[], by simp, by simp⟩

theorem Asked.one {c : Call} (hjournal : f.journal = e.journal ++ [c]) (hc : test c) :
    e.Asked test f :=
  ⟨[c], hjournal, by simpa using hc⟩

theorem Asked.trans (h : e.Asked test f) (h' : f.Asked test g) : e.Asked test g := by
  obtain ⟨calls, hjournal, hcalls⟩ := h
  obtain ⟨later, hlater, htests⟩ := h'
  refine ⟨calls ++ later, by rw [hlater, hjournal, List.append_assoc], fun c hc => ?_⟩
  exact (List.mem_append.mp hc).elim (hcalls c) (htests c)

theorem Asked.mono {weaker : Call → Prop} (h : e.Asked test f) (himp : ∀ c, test c → weaker c) :
    e.Asked weaker f := by
  obtain ⟨calls, hjournal, hcalls⟩ := h
  exact ⟨calls, hjournal, fun c hc => himp c (hcalls c hc)⟩

/-- How often a linter was asked for. -/
def lints (e : Editor) : Nat := e.journal.countP Call.isLint

theorem Asked.lints_eq (h : e.Asked test f) (htest : ∀ c, test c → c.isLint = false) :
    f.lints = e.lints := by
  obtain ⟨calls, hjournal, hcalls⟩ := h
  have hnone : calls.countP Call.isLint = 0 :=
    List.countP_eq_zero.mpr fun c hc => by simp [htest c (hcalls c hc)]
  rw [lints, hjournal, List.countP_append, hnone, Nat.add_zero, lints]

/-- Only things of one document were put up, taken away or listened to. -/
structure WorksOn (doc : DocumentId) (e f : Editor) : Prop where
  documents : f.documents = e.documents
  asked : e.Asked (Call.IsFor doc) f

variable {doc : DocumentId}

theorem WorksOn.refl (e : Editor) : e.WorksOn doc e := ⟨rfl, .refl e⟩

theorem WorksOn.trans (h : e.WorksOn doc f) (h' : f.WorksOn doc g) : e.WorksOn doc g :=
  ⟨h'.documents.trans h.documents, h.asked.trans h'.asked⟩

theorem WorksOn.one {c : Call} (hdocuments : f.documents = e.documents)
    (hjournal : f.journal = e.journal ++ [c]) (hc : c.IsFor doc) : e.WorksOn doc f :=
  ⟨hdocuments, .one hjournal hc⟩

theorem WorksOn.lints_eq (h : e.WorksOn doc f) : f.lints = e.lints :=
  h.asked.lints_eq fun _ hc => hc.1

/-- Nothing was put up or taken away, and no document was opened or closed. -/
structure Idle (e f : Editor) : Prop where
  documents : f.documents = e.documents
  markers : f.markers = e.markers
  tooltips : f.tooltips = e.tooltips
  listeners : f.listeners = e.listeners
  manner : f.manner = e.manner
  issued : f.issued = e.issued
  asked : e.Asked (fun c => c.isNeutral = true) f

theorem Idle.refl (e : Editor) : e.Idle e := ⟨rfl, rfl, rfl, rfl, rfl, rfl, .refl e⟩

theorem Idle.trans (h : e.Idle f) (h' : f.Idle g) : e.Idle g where
  documents := h'.documents.trans h.documents
  markers := h'.markers.trans h.markers
  tooltips := h'.tooltips.trans h.tooltips
  listeners := h'.listeners.trans h.listeners
  manner := h'.manner.trans h.manner
  issued := h'.issued.trans h.issued
  asked := h.asked.trans h'.asked

theorem idle_note (e : Editor) {c : Call} (hc : c.isNeutral = true) : e.Idle (e.note c) :=
  ⟨rfl, rfl, rfl, rfl, rfl, rfl, .one rfl hc⟩

end Editor

/-! ### What drawing leaves alone -/

theorem Anchors.get?_reconcile_of_ne (a : Anchors) {doc d : DocumentId} (rows : List Row) (e : Editor)
    (hd : doc ≠ d) : (a.reconcile doc rows e).2.1.get? d = a.get? d := by
  unfold reconcile
  cases a.get? doc with
  | none => rfl
  | some held =>
      dsimp only
      split
      · exact SortedMap.get?_erase_of_ne a hd
      · exact SortedMap.get?_insert_of_ne a _ hd

theorem Anchors.get?_provide_of_ne (a : Anchors) {doc d : DocumentId} (row : Row) (e : Editor)
    (hd : doc ≠ d) : (a.provide doc row e).1.get? d = a.get? d := by
  unfold provide
  split
  · rfl
  · exact SortedMap.get?_insert_of_ne a _ hd

theorem Anchors.worksOn_provide (a : Anchors) (doc : DocumentId) (row : Row) (e : Editor) :
    e.WorksOn doc (a.provide doc row e).2 := by
  unfold provide
  split
  · exact .refl e
  · refine ⟨rfl, _, rfl, fun c hc => ?_⟩
    simp only [Call.marking, List.mem_cons, List.not_mem_nil, or_false] at hc
    rcases hc with rfl | rfl | rfl <;> exact ⟨rfl, fun d hd => (Option.some.inj hd).symm⟩

theorem Anchors.worksOn_destroyAll (doc : DocumentId) (handles : List Handle) (e : Editor) :
    e.WorksOn doc (Anchors.destroyAll doc handles e) := by
  rw [Anchors.destroyAll_eq]
  refine ⟨rfl, _, rfl, fun c hc => ?_⟩
  obtain ⟨h, -, rfl⟩ := List.mem_map.mp hc
  exact ⟨rfl, fun d hd => (Option.some.inj hd).symm⟩

namespace Renderer

theorem worksOn_releaseAll (doc : DocumentId) (handles : List Handle) (e : Editor) :
    e.WorksOn doc (Renderer.releaseAll handles e) := by
  rw [Renderer.releaseAll_eq]
  refine ⟨rfl, _, rfl, fun c hc => ?_⟩
  obtain ⟨h, -, rfl⟩ := List.mem_map.mp hc
  exact ⟨rfl, fun d hd => by cases hd⟩

/-- Drawing groups of one document changes no anchors of another one. -/
theorem foldl_drawGroup_worksOn (doc : DocumentId) (g : SubscriptionGroup Handle) (a : Anchors)
    (e : Editor) (entries : List (Row × LineGroup)) :
    (∀ d, doc ≠ d → (entries.foldl (drawGroup doc) (g, a, e)).2.1.get? d = a.get? d) ∧
      e.WorksOn doc (entries.foldl (drawGroup doc) (g, a, e)).2.2 := by
  induction entries generalizing g a e with
  | nil => exact ⟨fun _ _ => rfl, .refl e⟩
  | cons entry rest ih =>
      rw [List.foldl_cons, drawGroup_eq]
      obtain ⟨hanchors, hworks⟩ := ih (g.add (.live (a.provide doc entry.1 e).2.freshHandle))
        (a.provide doc entry.1 e).1
        ((a.provide doc entry.1 e).2.showTooltip doc (Tooltip.ofGroup entry)).2
      constructor
      · intro d hd
        exact (hanchors d hd).trans (a.get?_provide_of_ne entry.1 e hd)
      · refine ((a.worksOn_provide doc entry.1 e).trans ?_).trans hworks
        exact .one rfl rfl ⟨rfl, fun d hd => (Option.some.inj hd).symm⟩

end Renderer

namespace Session

variable {σ : Type u}

/-! ### Other documents -/

/-- Everything of a document is as before: what is kept of it, and what can be seen of it. -/
structure Spares (doc : DocumentId) (s t : Session σ) : Prop where
  store : t.store.get? doc = s.store.get? doc
  anchors : t.anchors.get? doc = s.anchors.get? doc
  tooltips : t.renderer.tooltips.get? doc = s.renderer.tooltips.get? doc
  phases : t.phases.get? doc = s.phases.get? doc
  triggers : t.triggers.get? doc = s.triggers.get? doc
  document : t.editor.documents.get? doc = s.editor.documents.get? doc
  asked : s.editor.Asked (fun c => c.doc? ≠ some doc) t.editor

theorem Spares.refl (doc : DocumentId) (s : Session σ) : Spares doc s s :=
  ⟨rfl, rfl, rfl, rfl, rfl, rfl, .refl _⟩

theorem Spares.trans {doc : DocumentId} {s t r : Session σ} (h : Spares doc s t)
    (h' : Spares doc t r) : Spares doc s r where
  store := h'.store.trans h.store
  anchors := h'.anchors.trans h.anchors
  tooltips := h'.tooltips.trans h.tooltips
  phases := h'.phases.trans h.phases
  triggers := h'.triggers.trans h.triggers
  document := h'.document.trans h.document
  asked := h.asked.trans h'.asked

/-- Nothing that is kept of documents has changed, nor anything that is seen of them but the status
bar. -/
structure Beside (s t : Session σ) : Prop where
  store : t.store = s.store
  anchors : t.anchors = s.anchors
  tooltips : t.renderer.tooltips = s.renderer.tooltips
  phases : t.phases = s.phases
  triggers : t.triggers = s.triggers
  editor : s.editor.Idle t.editor

theorem Beside.refl (s : Session σ) : Beside s s := ⟨rfl, rfl, rfl, rfl, rfl, .refl _⟩

theorem Beside.trans {s t r : Session σ} (h : Beside s t) (h' : Beside t r) : Beside s r where
  store := h'.store.trans h.store
  anchors := h'.anchors.trans h.anchors
  tooltips := h'.tooltips.trans h.tooltips
  phases := h'.phases.trans h.phases
  triggers := h'.triggers.trans h.triggers
  editor := h.editor.trans h'.editor

theorem Beside.spares {s t : Session σ} (h : Beside s t) (doc : DocumentId) : Spares doc s t where
  store := by rw [h.store]
  anchors := by rw [h.anchors]
  tooltips := by rw [h.tooltips]
  phases := by rw [h.phases]
  triggers := by rw [h.triggers]
  document := by rw [h.editor.documents]
  asked := h.editor.asked.mono fun c hc => by simp [(Call.kinds_of_isNeutral hc).2]

theorem Beside.lints_eq {s t : Session σ} (h : Beside s t) : t.editor.lints = s.editor.lints :=
  h.editor.asked.lints_eq fun _ hc => (Call.kinds_of_isNeutral hc).1

theorem beside_updateStatus (s : Session σ) : Beside s s.updateStatus :=
  ⟨rfl, rfl, rfl, rfl, rfl, ⟨rfl, rfl, rfl, rfl, rfl, rfl, .one rfl rfl⟩⟩

theorem beside_askIgnored (sv : Services σ) (path : Path) (s : Session σ) :
    Beside s (s.askIgnored sv path).2 :=
  ⟨rfl, rfl, rfl, rfl, rfl, s.editor.idle_note rfl⟩

theorem beside_lookUp (sv : Services σ) (d : Document) (s : Session σ) :
    Beside s (s.lookUp sv d).2 := by
  unfold lookUp
  cases d.path with
  | none => exact .refl s
  | some path =>
      refine (beside_askIgnored sv path s).trans ?_
      exact ⟨rfl, rfl, rfl, rfl, rfl, Editor.idle_note _ rfl⟩

theorem beside_delays (s : Session σ) (lint render : Debouncer DocumentId) (status : Debouncer Unit) :
    Beside s { s with lintDelay := lint, renderDelay := render, statusDelay := status } :=
  ⟨rfl, rfl, rfl, rfl, rfl, .refl _⟩

/-! ### Work on one document -/

section Work

variable {doc d : DocumentId}

theorem worksOn_forgetDiagnostics (s : Session σ) (doc : DocumentId) :
    s.editor.WorksOn doc (s.forgetDiagnostics doc).editor :=
  (Anchors.worksOn_destroyAll doc _ s.editor).trans (Renderer.worksOn_releaseAll doc _ _)

theorem worksOn_releaseTriggers (s : Session σ) (doc : DocumentId) :
    s.editor.WorksOn doc (s.releaseTriggers doc).editor :=
  List.foldlRecOn (motive := s.editor.WorksOn doc) _ _ (.refl s.editor)
    fun _ he _ _ => he.trans (.one rfl rfl ⟨rfl, fun _ hd => by cases hd⟩)

theorem worksOn_registerTriggers (s : Session σ) (doc : DocumentId) :
    s.editor.WorksOn doc (s.registerTriggers doc).editor :=
  List.foldlRecOn (motive := fun x : SubscriptionGroup Handle × Editor =>
    s.editor.WorksOn doc x.2) _ _ (worksOn_releaseTriggers s doc)
    fun _ hx _ _ => hx.trans (.one rfl rfl ⟨rfl, fun _ hd => (Option.some.inj hd).symm⟩)

theorem worksOn_draw (s : Session σ) (doc : DocumentId) :
    s.editor.WorksOn doc (s.draw doc).editor := by
  have hcleared : s.editor.WorksOn doc (s.anchors.reconcile doc (s.store.rows doc) s.editor).2.2 := by
    rw [Anchors.reconcile_editor]
    exact Anchors.worksOn_destroyAll doc _ _
  exact (hcleared.trans (Renderer.worksOn_releaseAll doc _ _)).trans
    (Renderer.foldl_drawGroup_worksOn doc [] _ _ _).2

theorem lints_render (s : Session σ) (doc : DocumentId) :
    (s.render doc).editor.lints = s.editor.lints :=
  (beside_updateStatus (s.draw doc)).lints_eq.trans (worksOn_draw s doc).lints_eq

theorem spares_setPhase (s : Session σ) (p : Phase) (hd : doc ≠ d) : Spares d s (s.setPhase doc p) :=
  ⟨rfl, rfl, rfl, SortedMap.get?_insert_of_ne _ _ hd, rfl, rfl, .refl _⟩

theorem spares_forgetDiagnostics (s : Session σ) (hd : doc ≠ d) :
    Spares d s (s.forgetDiagnostics doc) where
  store := SortedMap.get?_erase_of_ne _ hd
  anchors := SortedMap.get?_erase_of_ne _ hd
  tooltips := SortedMap.get?_erase_of_ne _ hd
  phases := rfl
  triggers := rfl
  document := by rw [(worksOn_forgetDiagnostics s doc).documents]
  asked := (worksOn_forgetDiagnostics s doc).asked.mono fun _ hc => hc.doc?_ne hd

theorem spares_releaseTriggers (s : Session σ) (hd : doc ≠ d) : Spares d s (s.releaseTriggers doc) where
  store := rfl
  anchors := rfl
  tooltips := rfl
  phases := rfl
  triggers := SortedMap.get?_erase_of_ne _ hd
  document := by rw [(worksOn_releaseTriggers s doc).documents]
  asked := (worksOn_releaseTriggers s doc).asked.mono fun _ hc => hc.doc?_ne hd

theorem spares_registerTriggers (s : Session σ) (hd : doc ≠ d) :
    Spares d s (s.registerTriggers doc) where
  store := rfl
  anchors := rfl
  tooltips := rfl
  phases := rfl
  triggers := (SortedMap.get?_insert_of_ne _ _ hd).trans (SortedMap.get?_erase_of_ne _ hd)
  document := by rw [(worksOn_registerTriggers s doc).documents]
  asked := (worksOn_registerTriggers s doc).asked.mono fun _ hc => hc.doc?_ne hd

theorem spares_draw (s : Session σ) (hd : doc ≠ d) : Spares d s (s.draw doc) where
  store := rfl
  anchors := ((Renderer.foldl_drawGroup_worksOn doc [] _ _ _).1 d hd).trans
    (s.anchors.get?_reconcile_of_ne _ s.editor hd)
  tooltips := by
    simp only [draw, Renderer.draw_eq]
    split
    · exact SortedMap.get?_erase_of_ne _ hd
    · exact SortedMap.get?_insert_of_ne _ _ hd
  phases := rfl
  triggers := rfl
  document := by rw [(worksOn_draw s doc).documents]
  asked := (worksOn_draw s doc).asked.mono fun _ hc => hc.doc?_ne hd

theorem spares_render (s : Session σ) (hd : doc ≠ d) : Spares d s (s.render doc) :=
  (spares_draw s hd).trans ((beside_updateStatus _).spares d)

theorem journal_stored (sv : Services σ) (doc : DocumentId) (d : Document) (config : LintConfig)
    (s : Session σ) : (s.stored sv doc d config).editor.journal =
      s.editor.journal ++ [lintCall s.settings d config] :=
  rfl

theorem spares_stored (sv : Services σ) (contents : Document) (config : LintConfig) (s : Session σ)
    (hd : doc ≠ d) : Spares d s (s.stored sv doc contents config) where
  store := SortedMap.get?_insert_of_ne _ _ hd
  anchors := rfl
  tooltips := rfl
  phases := SortedMap.get?_insert_of_ne _ _ hd
  triggers := rfl
  document := rfl
  asked := .one (journal_stored sv doc contents config s) fun heq => by cases heq

theorem spares_runPass (sv : Services σ) (s : Session σ) (hd : doc ≠ d) :
    Spares d s (s.runPass sv doc).2 := by
  have hresult := runPass_result sv doc s
  generalize s.runPass sv doc = result at hresult ⊢
  cases hresult with
  | noDocument => exact .refl d s
  | unsupported => exact .refl d s
  | @ignored _ path =>
      have hasked := (beside_askIgnored sv path s).spares d
      have hforgotten := hasked.trans (spares_forgetDiagnostics _ hd)
      exact (hforgotten.trans ((beside_updateStatus _).spares d)).trans (spares_setPhase _ .clean hd)
  | @noConfig contents => exact (beside_lookUp sv contents s).spares d
  | @linted contents =>
      rw [lintDocument_eq]
      have hstored := ((beside_lookUp sv contents s).spares d).trans
        (spares_stored sv contents (s.lookUp sv contents).1 _ hd)
      exact (hstored.trans (spares_render _ hd)).trans (spares_setPhase _ .annotated hd)

/-- A pass asks for a linter once if it lints its document, and else not at all. -/
theorem lints_runPass (sv : Services σ) (doc : DocumentId) (s : Session σ) :
    (s.runPass sv doc).2.editor.lints =
      s.editor.lints + (lintedIn [(doc, (s.runPass sv doc).1)]).length := by
  have hresult := runPass_result sv doc s
  generalize s.runPass sv doc = result at hresult ⊢
  cases hresult with
  | noDocument => rfl
  | unsupported => rfl
  | @ignored _ path =>
      have hasked := (beside_askIgnored sv path s).lints_eq
      have hforgotten := (worksOn_forgetDiagnostics (s.askIgnored sv path).2 doc).lints_eq
      have hstatus := (beside_updateStatus ((s.askIgnored sv path).2.forgetDiagnostics doc)).lints_eq
      exact hstatus.trans (hforgotten.trans hasked)
  | @noConfig contents => exact (beside_lookUp sv contents s).lints_eq
  | @linted contents =>
      have hlookedUp := (beside_lookUp sv contents s).lints_eq
      have hstored : ((s.lookUp sv contents).2.stored sv doc contents
          (s.lookUp sv contents).1).editor.lints = s.editor.lints + 1 := by
        rw [Editor.lints, journal_stored, List.countP_append, ← hlookedUp]
        rfl
      rw [lintDocument_eq]
      exact (lints_render _ doc).trans hstored

end Work

/-! ### Documents that nothing is kept of -/

structure KeepsNothing (s : Session σ) (doc : DocumentId) : Prop where
  store : s.store.get? doc = none
  anchors : s.anchors.get? doc = none
  tooltips : s.renderer.tooltips.get? doc = none
  phases : s.phases.get? doc = none
  triggers : s.triggers.get? doc = none

/-- Everything of a document is let go but its listeners. -/
def purge (s : Session σ) (doc : DocumentId) : Session σ :=
  { s.forgetDiagnostics doc with phases := s.phases.erase doc }

theorem KeepsNothing.draw {s : Session σ} {doc : DocumentId} (h : s.KeepsNothing doc) :
    s.draw doc = s := by
  have hdiagnostics := Store.diagnostics_of_get?_eq_none h.store
  have hhandles : s.renderer.handles doc = [] := by
    simp [Renderer.handles, Renderer.tooltipGroup, h.tooltips, SubscriptionGroup.released]
  have hreconcile : ∀ rows, s.anchors.reconcile doc rows s.editor = (0, s.anchors, s.editor) := by
    intro rows
    simp only [Anchors.reconcile, h.anchors]
  have hdrawn : s.renderer.draw s.store s.anchors doc s.editor = (s.renderer, s.anchors, s.editor) := by
    rw [Renderer.draw_eq, hdiagnostics, hhandles, hreconcile]
    simp only [SortedMap.entries_empty, List.foldl_nil, List.isEmpty_nil, if_true,
      SortedMap.erase_of_get?_eq_none h.tooltips]
    rfl
  simp only [Session.draw, hdrawn]

theorem KeepsNothing.releaseTriggers {s : Session σ} {doc : DocumentId} (h : s.KeepsNothing doc) :
    s.releaseTriggers doc = s := by
  have hnone : SubscriptionGroup.released ((s.triggers.get? doc).getD []) = [] := by
    rw [h.triggers]
    rfl
  simp only [Session.releaseTriggers, hnone, List.foldl_nil, SortedMap.erase_of_get?_eq_none h.triggers]

theorem KeepsNothing.forgetDiagnostics {s : Session σ} {doc : DocumentId} (h : s.KeepsNothing doc) :
    s.forgetDiagnostics doc =
      { s with renderer.displayed := s.renderer.displayed.filter fun shown => shown.1 ≠ doc } := by
  have hanchors : s.anchors.removeAll doc s.editor = (s.anchors, s.editor) := by
    simp only [Anchors.removeAll, Anchors.ofDocument, h.anchors, SortedMap.erase_of_get?_eq_none h.anchors]
    rfl
  have hcleared : s.renderer.clearDocument doc s.editor =
      ({ s.renderer with displayed := s.renderer.displayed.filter fun shown => shown.1 ≠ doc },
        s.editor) := by
    simp only [Renderer.clearDocument, Renderer.tooltipGroup, h.tooltips,
      SortedMap.erase_of_get?_eq_none h.tooltips]
    rfl
  simp only [Session.forgetDiagnostics, hanchors, hcleared, SortedMap.erase_of_get?_eq_none h.store]

theorem KeepsNothing.purge {s : Session σ} {doc : DocumentId} (h : s.KeepsNothing doc) :
    Beside s (s.purge doc) := by
  rw [Session.purge, h.forgetDiagnostics, SortedMap.erase_of_get?_eq_none h.phases]
  exact ⟨rfl, rfl, rfl, rfl, rfl, .refl _⟩

theorem KeepsNothing.of_spares {s t : Session σ} {doc : DocumentId} (hs : s.KeepsNothing doc)
    (h : Spares doc s t) : t.KeepsNothing doc where
  store := h.store.trans hs.store
  anchors := h.anchors.trans hs.anchors
  tooltips := h.tooltips.trans hs.tooltips
  phases := h.phases.trans hs.phases
  triggers := h.triggers.trans hs.triggers

/-- A document is not open, and nothing is kept of it. -/
structure Gone (s : Session σ) (doc : DocumentId) : Prop where
  absent : s.editor.documents.get? doc = none
  keepsNothing : s.KeepsNothing doc

theorem runPass_of_absent {sv : Services σ} {s : Session σ} {doc : DocumentId}
    (h : s.editor.documents.get? doc = none) : s.runPass sv doc = (.skipped .noDocument, s) := by
  rw [runPass, h]

/-! ### Steps -/

/-- A step that is about documents of `P`, with the passes that it makes. Any document that is gone may be
passed over, drawn and purged as well, since nothing comes of that. -/
inductive Step (sv : Services σ) (P : DocumentId → Prop) :
    List (DocumentId × Outcome) → Session σ → Session σ → Prop where
  | beside {s t : Session σ} (h : Beside s t) : Step sv P [] s t
  | arrange (s : Session σ) (desk : Desk)
      (hdesk : ∀ d, P d ∨ desk.documents.get? d = s.editor.documents.get? d) :
      Step sv P [] s { s with editor := s.editor.arrange desk }
  | pass (s : Session σ) {doc : DocumentId} (hdoc : P doc ∨ s.Gone doc) :
      Step sv P [(doc, (s.runPass sv doc).1)] s (s.runPass sv doc).2
  | render (s : Session σ) {doc : DocumentId} (hdoc : P doc ∨ s.Gone doc) :
      Step sv P [] s (s.render doc)
  | purge (s : Session σ) {doc : DocumentId} (hdoc : P doc ∨ s.Gone doc) :
      Step sv P [] s (s.purge doc)
  | release (s : Session σ) {doc : DocumentId} (hdoc : P doc ∨ s.Gone doc) :
      Step sv P [] s (s.releaseTriggers doc)
  | register (s : Session σ) {doc : DocumentId} (hdoc : P doc) :
      Step sv P [] s (s.registerTriggers doc)
  /-- A document is met for the first time. -/
  | greet (s : Session σ) {doc : DocumentId} (hdoc : P doc) (hnew : s.phases.contains doc = false) :
      Step sv P [] s (s.setPhase doc .clean)

section Step

variable {sv : Services σ} {P : DocumentId → Prop} {made : List (DocumentId × Outcome)}
  {s t : Session σ}

/-- A step leaves alone what it is not about. -/
theorem Step.spares (h : Step sv P made s t) {d : DocumentId} (hd : ¬ P d) : Spares d s t := by
  have hother : ∀ {doc}, P doc → doc ≠ d := fun hdoc heq => hd (heq ▸ hdoc)
  -- A document that is gone may be the one that is spared.
  have hgone : ∀ {doc}, P doc ∨ s.Gone doc → doc ≠ d ∨ s.Gone d := fun hdoc =>
    hdoc.elim (.inl ∘ hother) fun hdoc => (em (_ = d)).elim (fun heq => .inr (heq ▸ hdoc)) .inl
  cases h with
  | beside h => exact h.spares d
  | arrange _ desk hdesk =>
      exact ⟨rfl, rfl, rfl, rfl, rfl, (hdesk d).resolve_left hd, .refl _⟩
  | @pass _ doc hdoc =>
      by_cases heq : doc = d
      · subst heq
        rw [runPass_of_absent (hdoc.resolve_left hd).absent]
        exact .refl doc s
      · exact spares_runPass sv s heq
  | @render _ doc hdoc =>
      by_cases heq : doc = d
      · subst heq
        rw [render_eq, (hdoc.resolve_left hd).keepsNothing.draw]
        exact (beside_updateStatus s).spares doc
      · exact spares_render s heq
  | @purge _ doc hdoc =>
      by_cases heq : doc = d
      · subst heq
        exact (hdoc.resolve_left hd).keepsNothing.purge.spares doc
      · have hforgotten := spares_forgetDiagnostics s heq
        exact { hforgotten with phases := SortedMap.get?_erase_of_ne _ heq }
  | @release _ doc hdoc =>
      by_cases heq : doc = d
      · subst heq
        rw [(hdoc.resolve_left hd).keepsNothing.releaseTriggers]
        exact .refl doc s
      · exact spares_releaseTriggers s heq
  | register _ hdoc => exact spares_registerTriggers s (hother hdoc)
  | greet _ hdoc => exact spares_setPhase s .clean (hother hdoc)

theorem Step.gone (h : Step sv P made s t) {d : DocumentId} (hd : ¬ P d) (hs : s.Gone d) : t.Gone d :=
  ⟨(h.spares hd).document.trans hs.absent, hs.keepsNothing.of_spares (h.spares hd)⟩

/-- A document that is gone can only be passed over to no effect. -/
theorem Step.outcome_of_mem (h : Step sv P made s t) {d : DocumentId} {outcome : Outcome}
    (hs : s.Gone d) (hmade : (d, outcome) ∈ made) : outcome = .skipped .noDocument := by
  cases h with
  | @pass _ doc hdoc =>
      obtain ⟨rfl, rfl⟩ : d = doc ∧ outcome = (s.runPass sv doc).1 := by simpa using hmade
      rw [runPass_of_absent hs.absent]
  | _ => cases hmade

/-- A linter is asked for once in every pass that lints its document, and at no other time. -/
theorem Step.lints (h : Step sv P made s t) :
    t.editor.lints = s.editor.lints + (lintedIn made).length := by
  cases h with
  | beside h => exact h.lints_eq
  | arrange => rfl
  | @pass _ doc => exact lints_runPass sv doc s
  | @render _ doc => exact lints_render s doc
  | @purge _ doc => exact (worksOn_forgetDiagnostics s doc).lints_eq
  | @release _ doc => exact (worksOn_releaseTriggers s doc).lints_eq
  | @register _ doc => exact (worksOn_registerTriggers s doc).lints_eq
  | greet => rfl

end Step

end Session

end LintMargin
