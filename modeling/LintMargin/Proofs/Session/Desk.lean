import LintMargin.Proofs.Session.Move

/-!
# What is left alone

A session reads which documents are open, where the focus is and where the cursors are. Linting, drawing
and listening change nothing about that, nor about the settings. Linting and drawing have no part in
schedules and listeners either.
-/

namespace LintMargin

universe u

/-! ### Requests -/

namespace Editor

def desk (e : Editor) : Desk := ⟨e.documents, e.active, e.cursors⟩

/-- The desk is as before, and so is the way in which things are named. -/
structure Untouched (e f : Editor) : Prop where
  desk : f.desk = e.desk
  manner : f.manner = e.manner

theorem Untouched.refl (e : Editor) : e.Untouched e := ⟨rfl, rfl⟩

theorem Untouched.trans {e f g : Editor} (h : e.Untouched f) (h' : f.Untouched g) : e.Untouched g :=
  ⟨h'.desk.trans h.desk, h'.manner.trans h.manner⟩

theorem Untouched.symm {e f : Editor} (h : e.Untouched f) : f.Untouched e := ⟨h.desk.symm, h.manner.symm⟩

theorem Untouched.documents {e f : Editor} (h : e.Untouched f) : f.documents = e.documents :=
  congrArg Desk.documents h.desk

theorem Untouched.active {e f : Editor} (h : e.Untouched f) : f.active = e.active :=
  congrArg Desk.active h.desk

theorem Untouched.cursors {e f : Editor} (h : e.Untouched f) : f.cursors = e.cursors :=
  congrArg Desk.cursors h.desk

theorem OffMargin.untouched {e f : Editor} (h : e.OffMargin f) : e.Untouched f :=
  ⟨by rw [desk, h.documents, h.active, h.cursors, desk], h.manner⟩

end Editor

/-! ### Sessions -/

namespace Session

variable {σ : Type u}

/-- What the user has a say in is as before. -/
structure Undisturbed (s t : Session σ) : Prop where
  editor : s.editor.Untouched t.editor
  settings : t.settings = s.settings

theorem Undisturbed.refl (s : Session σ) : Undisturbed s s := ⟨.refl _, rfl⟩

theorem Undisturbed.trans {s t r : Session σ} (h : Undisturbed s t) (h' : Undisturbed t r) :
    Undisturbed s r :=
  ⟨h.editor.trans h'.editor, h'.settings.trans h.settings⟩

theorem undisturbed_releaseTriggers (s : Session σ) (doc : DocumentId) :
    Undisturbed s (s.releaseTriggers doc) :=
  ⟨List.foldlRecOn (motive := s.editor.Untouched) _ _ (.refl s.editor)
    fun _ he _ _ => he.trans ⟨rfl, rfl⟩, rfl⟩

theorem undisturbed_registerTriggers (s : Session σ) (doc : DocumentId) :
    Undisturbed s (s.registerTriggers doc) :=
  ⟨List.foldlRecOn (motive := fun x : SubscriptionGroup Handle × Editor => s.editor.Untouched x.2) _ _
    (undisturbed_releaseTriggers s doc).editor fun _ hx _ _ => hx.trans ⟨rfl, rfl⟩, rfl⟩

/-! ### Linting and drawing -/

/-- Only diagnostics, phases, the margin, the status bar and the services may have changed. -/
structure Confined (s t : Session σ) : Prop where
  undisturbed : Undisturbed s t
  listeners : t.editor.listeners = s.editor.listeners
  triggers : t.triggers = s.triggers
  lintDelay : t.lintDelay = s.lintDelay
  renderDelay : t.renderDelay = s.renderDelay
  statusDelay : t.statusDelay = s.statusDelay

variable {s t r : Session σ}

theorem Confined.refl (s : Session σ) : Confined s s := ⟨.refl s, rfl, rfl, rfl, rfl, rfl⟩

theorem Confined.trans (h : Confined s t) (h' : Confined t r) : Confined s r where
  undisturbed := h.undisturbed.trans h'.undisturbed
  listeners := h'.listeners.trans h.listeners
  triggers := h'.triggers.trans h.triggers
  lintDelay := h'.lintDelay.trans h.lintDelay
  renderDelay := h'.renderDelay.trans h.renderDelay
  statusDelay := h'.statusDelay.trans h.statusDelay

/-- Doing the same to the deadlines on both sides. -/
theorem Confined.delays (h : Confined s t) (lint render : Debouncer DocumentId → Debouncer DocumentId)
    (status : Debouncer Unit → Debouncer Unit) :
    Confined
      { s with
        lintDelay := lint s.lintDelay
        renderDelay := render s.renderDelay
        statusDelay := status s.statusDelay }
      { t with
        lintDelay := lint t.lintDelay
        renderDelay := render t.renderDelay
        statusDelay := status t.statusDelay } where
  undisturbed := ⟨h.undisturbed.editor, h.undisturbed.settings⟩
  listeners := h.listeners
  triggers := h.triggers
  lintDelay := congrArg lint h.lintDelay
  renderDelay := congrArg render h.renderDelay
  statusDelay := congrArg status h.statusDelay

/-- Other books and another margin, with the rest of the editor as it is. -/
theorem confined_offMargin (s : Session σ) {e : Editor} (he : s.editor.OffMargin e) (store : Store)
    (anchors : Anchors) (renderer : Renderer) (phases : SortedMap DocumentId Phase) :
    Confined s { s with editor := e, store, anchors, renderer, phases } :=
  ⟨⟨he.untouched, rfl⟩, he.listeners, rfl, rfl, rfl, rfl⟩

theorem confined_draw (s : Session σ) (doc : DocumentId) : Confined s (s.draw doc) :=
  confined_offMargin s (s.renderer.offMargin_draw s.store s.anchors doc s.editor) _ _ _ _

theorem confined_updateStatus (s : Session σ) : Confined s s.updateStatus :=
  ⟨⟨⟨rfl, rfl⟩, rfl⟩, rfl, rfl, rfl, rfl, rfl⟩

theorem confined_render (s : Session σ) (doc : DocumentId) : Confined s (s.render doc) :=
  (confined_draw s doc).trans (confined_updateStatus _)

theorem confined_forgetDiagnostics (s : Session σ) (doc : DocumentId) :
    Confined s (s.forgetDiagnostics doc) :=
  confined_offMargin s ((Anchors.offMargin_destroyAll doc _ s.editor).trans
    (Renderer.offMargin_releaseAll _ _)) _ _ _ _

theorem confined_setPhase (s : Session σ) (doc : DocumentId) (p : Phase) :
    Confined s (s.setPhase doc p) :=
  confined_offMargin s (.refl _) _ _ _ _

theorem confined_askIgnored (sv : Services σ) (path : Path) (s : Session σ) :
    Confined s (s.askIgnored sv path).2 :=
  ⟨⟨⟨rfl, rfl⟩, rfl⟩, rfl, rfl, rfl, rfl, rfl⟩

theorem confined_lookUp (sv : Services σ) (d : Document) (s : Session σ) :
    Confined s (s.lookUp sv d).2 := by
  unfold lookUp
  cases d.path with
  | none => exact .refl s
  | some path =>
      exact (confined_askIgnored sv path s).trans ⟨⟨⟨rfl, rfl⟩, rfl⟩, rfl, rfl, rfl, rfl, rfl⟩

theorem confined_stored (sv : Services σ) (doc : DocumentId) (d : Document) (config : LintConfig)
    (s : Session σ) : Confined s (s.stored sv doc d config) :=
  ⟨⟨⟨rfl, rfl⟩, rfl⟩, rfl, rfl, rfl, rfl, rfl⟩

theorem confined_runPass (sv : Services σ) (doc : DocumentId) (s : Session σ) :
    Confined s (s.runPass sv doc).2 := by
  have hresult := runPass_result sv doc s
  generalize s.runPass sv doc = result at hresult ⊢
  cases hresult with
  | noDocument => exact .refl s
  | unsupported => exact .refl s
  | @ignored _ path =>
      have hforgotten := (confined_askIgnored sv path s).trans (confined_forgetDiagnostics _ doc)
      exact (hforgotten.trans (confined_updateStatus _)).trans (confined_setPhase _ doc .clean)
  | @noConfig d => exact confined_lookUp sv d s
  | @linted d =>
      rw [lintDocument_eq]
      have hstored := (confined_lookUp sv d s).trans (confined_stored sv doc d (s.lookUp sv d).1 _)
      exact (hstored.trans (confined_render _ doc)).trans (confined_setPhase _ doc .annotated)

theorem confined_passAll (sv : Services σ) (docs : List DocumentId) (s : Session σ) :
    Confined s (passAll sv docs s).2 := by
  induction docs generalizing s with
  | nil => exact .refl s
  | cons doc rest ih => exact (confined_runPass sv doc s).trans (ih _)

theorem confined_drawDue (now : Nat) (linted : List DocumentId) (s : Session σ) :
    Confined { s with renderDelay := (s.renderDelay.takeDue now).2 } (s.drawDue now linted).2 :=
  List.foldlRecOn (motive := Confined _) _ _ (.refl _)
    fun t ht doc _ => ht.trans (confined_render t doc)

theorem confined_refreshDue (now : Nat) (s : Session σ) :
    Confined { s with statusDelay := (s.statusDelay.takeDue now).2 } (s.refreshDue now).2 := by
  simp only [refreshDue]
  split
  · exact .refl _
  · exact confined_updateStatus _

/-- A tick takes what is due from the schedules. -/
theorem confined_tick (sv : Services σ) (now : Nat) (s : Session σ) :
    Confined { s with
      lintDelay := (s.lintDelay.takeDue now).2
      renderDelay := (s.renderDelay.takeDue now).2
      statusDelay := (s.statusDelay.takeDue now).2 } (s.tick sv now).2 := by
  have hpassed := confined_passAll sv (s.lintDelay.takeDue now).1
    { s with lintDelay := (s.lintDelay.takeDue now).2 }
  simp only [tick]
  generalize passAll sv _ _ = passed at hpassed ⊢
  have hdrawn := (hpassed.delays id (fun d => (d.takeDue now).2) id).trans
    (confined_drawDue now (lintedIn passed.1) passed.2)
  exact (hdrawn.delays id id fun d => (d.takeDue now).2).trans (confined_refreshDue now _)

/-- Linting at once takes the document with the focus from the schedule. -/
theorem confined_lintNow (sv : Services σ) (s : Session σ) :
    Confined { s with lintDelay := s.editor.active.elim s.lintDelay s.lintDelay.cancel }
      (s.lintNow sv).2 := by
  unfold lintNow
  cases hactive : s.editor.active with
  | none => exact .refl s
  | some doc => exact confined_runPass sv doc _

/-! ### New settings, closing and the focus -/

theorem undisturbed_retune (sv : Services σ) (settings : Settings) (s : Session σ) :
    Undisturbed (s.adopt sv settings) (s.retune sv settings) :=
  retune_induction (.refl _) fun r doc _ hr => hr.trans (undisturbed_registerTriggers r doc)

theorem delays_retune (sv : Services σ) (settings : Settings) (s : Session σ) :
    (s.retune sv settings).lintDelay = s.lintDelay.setDelay settings.delays.lint ∧
      (s.retune sv settings).renderDelay = s.renderDelay.setDelay settings.delays.render :=
  retune_induction (P := fun r => r.lintDelay = s.lintDelay.setDelay settings.delays.lint ∧
    r.renderDelay = s.renderDelay.setDelay settings.delays.render) ⟨rfl, rfl⟩ fun _ _ _ hr => hr

theorem undisturbed_tick (sv : Services σ) (now : Nat) (s : Session σ) :
    Undisturbed s (s.tick sv now).2 :=
  ⟨(confined_tick sv now s).undisturbed.editor, (confined_tick sv now s).undisturbed.settings⟩

theorem undisturbed_closed (s : Session σ) (doc : DocumentId) : Undisturbed s (s.closed doc) :=
  ((undisturbed_releaseTriggers s doc).trans ⟨⟨rfl, rfl⟩, rfl⟩).trans
    ((confined_forgetDiagnostics _ doc).undisturbed.trans ⟨⟨rfl, rfl⟩, rfl⟩)

theorem undisturbed_attend (s : Session σ) (doc : DocumentId) : Undisturbed s (s.attend doc) := by
  rcases s.attend_cases doc with h | h
  · rw [h]
    exact ⟨⟨rfl, rfl⟩, rfl⟩
  · rw [h]
    exact (undisturbed_registerTriggers s doc).trans ⟨⟨rfl, rfl⟩, rfl⟩

theorem services_attend (s : Session σ) (doc : DocumentId) : (s.attend doc).services = s.services := by
  rcases s.attend_cases doc with h | h
  · rw [h]
  · rw [h]
    rfl

theorem delays_attend (s : Session σ) (doc : DocumentId) :
    (s.attend doc).lintDelay = s.lintDelay.cancel doc ∧ (s.attend doc).renderDelay = s.renderDelay := by
  rcases s.attend_cases doc with h | h <;> rw [h] <;> exact ⟨rfl, rfl⟩

theorem confined_activated (sv : Services σ) (doc : DocumentId) (s : Session σ) :
    Confined (s.attend doc) (s.activated sv doc).2 := by
  have hpassed := confined_runPass sv doc (s.attend doc)
  rw [activated_eq]
  dsimp only
  split
  · exact hpassed.trans (confined_updateStatus _)
  · exact hpassed

end Session

end LintMargin
