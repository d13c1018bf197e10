import LintMargin.Proofs.Margin.Redrawing
import LintMargin.Proofs.Session.Pass
import LintMargin.Proofs.Session.Run
import Mathlib.Logic.Relation

/-!
# The moves of a session

As far as diagnostics, the margin and the status bar are concerned, every act is made of moves of five
kinds. `act_moves` says so; what each kind of move keeps is kept by every run.
-/

namespace LintMargin.Session

universe u

variable {σ : Type u}

/-! ### Moves -/

/-- Diagnostics, margin and status bar are as before. -/
structure Aside (s t : Session σ) : Prop where
  store : t.store = s.store
  anchors : t.anchors = s.anchors
  renderer : t.renderer = s.renderer
  markers : t.editor.markers = s.editor.markers
  tooltips : t.editor.tooltips = s.editor.tooltips
  status : t.editor.status = s.editor.status
  manner : t.editor.manner = s.editor.manner
  issued : s.editor.issued ≤ t.editor.issued

/-- The margin of a document is brought up to date. -/
def draw (s : Session σ) (doc : DocumentId) : Session σ :=
  let drawn := s.renderer.draw s.store s.anchors doc s.editor
  { s with renderer := drawn.1, anchors := drawn.2.1, editor := drawn.2.2 }

theorem render_eq (s : Session σ) (doc : DocumentId) : s.render doc = (s.draw doc).updateStatus := rfl

inductive Move : Session σ → Session σ → Prop where
  | aside {s t : Session σ} (h : Aside s t) : Move s t
  | refresh (s : Session σ) : Move s s.updateStatus
  | render (s : Session σ) (doc : DocumentId) : Move s (s.render doc)
  /-- New diagnostics of a document are stored and drawn. -/
  | replace (s : Session σ) (doc : DocumentId) (d : Diagnostics) (hd : d.OnRows) :
      Move s ({ s with store := s.store.insert doc d }.render doc)
  | forget (s : Session σ) (doc : DocumentId) : Move s (s.forgetDiagnostics doc).updateStatus

/-- One move after another. -/
abbrev Moves : Session σ → Session σ → Prop := Relation.ReflTransGen Move

/-- What every move keeps is kept by moves one after another. -/
theorem Moves.keep {s t : Session σ} {P : Session σ → Prop} (h : Moves s t)
    (hmove : ∀ s t, Move s t → P s → P t) (hs : P s) : P t := by
  induction h with
  | refl => exact hs
  | tail _ hlast ih => exact hmove _ _ hlast ih

theorem Aside.refl (s : Session σ) : Aside s s := ⟨rfl, rfl, rfl, rfl, rfl, rfl, rfl, Nat.le_refl _⟩

theorem Aside.trans {s t r : Session σ} (h : Aside s t) (h' : Aside t r) : Aside s r where
  store := h'.store.trans h.store
  anchors := h'.anchors.trans h.anchors
  renderer := h'.renderer.trans h.renderer
  markers := h'.markers.trans h.markers
  tooltips := h'.tooltips.trans h.tooltips
  status := h'.status.trans h.status
  manner := h'.manner.trans h.manner
  issued := Nat.le_trans h.issued h'.issued

theorem Aside.moves {s t : Session σ} (h : Aside s t) : Moves s t := .single (.aside h)

/-- Two sessions with the same diagnostics, books and editor. -/
theorem Aside.of_eq {s t : Session σ} (hstore : t.store = s.store) (hanchors : t.anchors = s.anchors)
    (hrenderer : t.renderer = s.renderer) (heditor : t.editor = s.editor) : Aside s t := by
  constructor <;> simp [hstore, hanchors, hrenderer, heditor]

/-! ### Steps aside -/

theorem aside_setPhase (s : Session σ) (doc : DocumentId) (p : Phase) : Aside s (s.setPhase doc p) :=
  .of_eq rfl rfl rfl rfl

theorem aside_delays (s : Session σ) (lint render : Debouncer DocumentId) (status : Debouncer Unit) :
    Aside s { s with lintDelay := lint, renderDelay := render, statusDelay := status } :=
  .of_eq rfl rfl rfl rfl

theorem aside_askIgnored (sv : Services σ) (path : Path) (s : Session σ) :
    Aside s (s.askIgnored sv path).2 :=
  ⟨rfl, rfl, rfl, rfl, rfl, rfl, rfl, Nat.le_refl _⟩

theorem aside_askConfig (sv : Services σ) (path : Path) (s : Session σ) :
    Aside s (s.askConfig sv path).2 :=
  ⟨rfl, rfl, rfl, rfl, rfl, rfl, rfl, Nat.le_refl _⟩

theorem aside_askLinter (sv : Services σ) (flavor : Flavor) (source : String) (config : LintConfig)
    (s : Session σ) : Aside s (s.askLinter sv flavor source config).2 :=
  ⟨rfl, rfl, rfl, rfl, rfl, rfl, rfl, Nat.le_refl _⟩

theorem aside_lookUp (sv : Services σ) (d : Document) (s : Session σ) : Aside s (s.lookUp sv d).2 := by
  unfold lookUp
  cases d.path with
  | none => exact .refl s
  | some path => exact (aside_askIgnored sv path s).trans (aside_askConfig sv path _)

theorem aside_releaseTriggers (s : Session σ) (doc : DocumentId) :
    Aside s (s.releaseTriggers doc) := by
  have hreleased : Aside s { s with editor := (s.releaseTriggers doc).editor } :=
    List.foldlRecOn (motive := fun e : Editor => Aside s { s with editor := e }) _ _ (.refl s)
      fun e he h _ => he.trans ⟨rfl, rfl, rfl, rfl, rfl, rfl, rfl, Nat.le_refl _⟩
  exact hreleased.trans (.of_eq rfl rfl rfl rfl)

theorem aside_registerTriggers (s : Session σ) (doc : DocumentId) :
    Aside s (s.registerTriggers doc) := by
  have hreleased := aside_releaseTriggers s doc
  have hlistening : Aside s { s with editor := (s.registerTriggers doc).editor } :=
    List.foldlRecOn
      (motive := fun x : SubscriptionGroup Handle × Editor => Aside s { s with editor := x.2 }) _ _
      (hreleased.trans (.of_eq rfl rfl rfl rfl))
      fun x hx event _ => hx.trans ⟨rfl, rfl, rfl, rfl, rfl, rfl, rfl, Nat.le_succ _⟩
  exact hlistening.trans (.of_eq rfl rfl rfl rfl)

/-! ### Acts are made of moves -/

theorem runPass_moves (sv : Services σ) (doc : DocumentId) (s : Session σ) :
    Moves s (s.runPass sv doc).2 := by
  generalize hpass : s.runPass sv doc = result
  have hresult := runPass_result sv doc s
  rw [hpass] at hresult
  cases hresult with
  | noDocument => exact .refl
  | unsupported => exact .refl
  | @ignored d path =>
      exact ((aside_askIgnored sv path s).moves.tail (.forget _ doc)).trans
        (aside_setPhase _ doc .clean).moves
  | @noConfig d => exact (aside_lookUp sv d s).moves
  | @linted d =>
      rw [lintDocument_eq]
      have hasked : Aside s (((s.lookUp sv d).2.setPhase doc .linting).askLinter sv
          (prepare (s.lookUp sv d).2.settings d).1 (prepare (s.lookUp sv d).2.settings d).2.source
          (s.lookUp sv d).1).2 :=
        ((aside_lookUp sv d s).trans (aside_setPhase _ doc .linting)).trans
          (aside_askLinter sv _ _ _ _)
      exact (hasked.moves.tail (.replace _ doc _ (Diagnostics.onRows_aggregate _))).trans
        (aside_setPhase _ doc .annotated).moves

theorem passAll_moves (sv : Services σ) (docs : List DocumentId) (s : Session σ) :
    Moves s (passAll sv docs s).2 := by
  induction docs generalizing s with
  | nil => exact .refl
  | cons doc rest ih => exact (runPass_moves sv doc s).trans (ih _)

theorem drawDue_moves (now : Nat) (linted : List DocumentId) (s : Session σ) :
    Moves s (s.drawDue now linted).2 := by
  have htaken := aside_delays s s.lintDelay (s.renderDelay.takeDue now).2 s.statusDelay
  exact List.foldlRecOn (motive := Moves s) _ _ htaken.moves
    fun t ht doc _ => ht.tail (.render t doc)

theorem refreshDue_moves (now : Nat) (s : Session σ) : Moves s (s.refreshDue now).2 := by
  have htaken := aside_delays s s.lintDelay s.renderDelay (s.statusDelay.takeDue now).2
  simp only [refreshDue]
  split
  · exact htaken.moves
  · exact htaken.moves.tail (.refresh _)

theorem finishTick_moves (now : Nat) (passed : List (DocumentId × Outcome) × Session σ) :
    Moves passed.2 (finishTick now passed).2 :=
  (drawDue_moves now _ _).trans (refreshDue_moves now _)

theorem tick_moves (sv : Services σ) (now : Nat) (s : Session σ) : Moves s (s.tick sv now).2 := by
  have htaken := aside_delays s (s.lintDelay.takeDue now).2 s.renderDelay s.statusDelay
  exact (htaken.moves.trans (passAll_moves sv _ _)).trans (finishTick_moves now _)

theorem lintNow_moves (sv : Services σ) (s : Session σ) : Moves s (s.lintNow sv).2 := by
  unfold lintNow
  split
  · exact .refl
  · next doc _ =>
      have hcanceled := aside_delays s (s.lintDelay.cancel doc) s.renderDelay s.statusDelay
      exact hcanceled.moves.trans (runPass_moves sv doc _)

/-- Takes over new settings. -/
def adopt (sv : Services σ) (settings : Settings) (s : Session σ) : Session σ :=
  { s with
    settings
    lintDelay := s.lintDelay.setDelay settings.delays.lint
    renderDelay := s.renderDelay.setDelay settings.delays.render
    statusDelay := s.statusDelay.setDelay settings.delays.status
    services := sv.forget s.services
    editor := s.editor.note .forgetConfigs }

/-- Takes over new settings and listens to all documents as they ask. -/
def retune (sv : Services σ) (settings : Settings) (s : Session σ) : Session σ :=
  s.triggers.keys.foldl (fun r doc => r.registerTriggers doc) (s.adopt sv settings)

theorem reconfigure_eq (sv : Services σ) (settings : Settings) (s : Session σ) :
    s.reconfigure sv settings = (s.retune sv settings).lintNow sv :=
  rfl

/-- What holds once the settings are taken over and is kept by listening anew. -/
theorem retune_induction {sv : Services σ} {settings : Settings} {s : Session σ} {P : Session σ → Prop}
    (hadopt : P (s.adopt sv settings))
    (hregister : ∀ r, ∀ doc ∈ s.triggers.keys, P r → P (r.registerTriggers doc)) :
    P (s.retune sv settings) :=
  List.foldlRecOn (motive := P) _ _ hadopt fun r hr doc hdoc => hregister r doc hdoc hr

theorem aside_retune (sv : Services σ) (settings : Settings) (s : Session σ) :
    Aside s (s.retune sv settings) :=
  retune_induction ⟨rfl, rfl, rfl, rfl, rfl, rfl, rfl, Nat.le_refl _⟩
    fun r doc _ hr => hr.trans (aside_registerTriggers r doc)

theorem reconfigure_moves (sv : Services σ) (settings : Settings) (s : Session σ) :
    Moves s (s.reconfigure sv settings).2 :=
  (aside_retune sv settings s).moves.trans (lintNow_moves sv _)

/-- A document is about to be linted because it got the focus: it is listened to and off the schedule. -/
def attend (s : Session σ) (doc : DocumentId) : Session σ :=
  let ready := if s.triggers.contains doc then s else s.registerTriggers doc
  { ready with lintDelay := ready.lintDelay.cancel doc }

theorem attend_cases (s : Session σ) (doc : DocumentId) :
    s.attend doc = { s with lintDelay := s.lintDelay.cancel doc } ∨
      s.attend doc = { s.registerTriggers doc with lintDelay := s.lintDelay.cancel doc } := by
  unfold attend
  cases s.triggers.contains doc with
  | true => exact .inl rfl
  | false => exact .inr rfl

theorem activated_eq (sv : Services σ) (doc : DocumentId) (s : Session σ) :
    s.activated sv doc = (((s.attend doc).runPass sv doc).1,
      if ((s.attend doc).runPass sv doc).1.isSkipped then ((s.attend doc).runPass sv doc).2.updateStatus
      else ((s.attend doc).runPass sv doc).2) :=
  rfl

theorem aside_attend (s : Session σ) (doc : DocumentId) : Aside s (s.attend doc) := by
  rcases s.attend_cases doc with h | h
  · rw [h]
    exact aside_delays s _ s.renderDelay s.statusDelay
  · rw [h]
    exact (aside_registerTriggers s doc).trans (aside_delays _ _ s.renderDelay s.statusDelay)

theorem activated_moves (sv : Services σ) (doc : DocumentId) (s : Session σ) :
    Moves s (s.activated sv doc).2 := by
  have hpassed := (aside_attend s doc).moves.trans (runPass_moves sv doc _)
  rw [activated_eq]
  dsimp only
  split
  · exact hpassed.tail (.refresh _)
  · exact hpassed

theorem opened_moves (doc : DocumentId) (now : Nat) (s : Session σ) : Moves s (s.opened doc now) := by
  refine ((aside_registerTriggers s doc).trans ?_).moves
  simp only [opened]
  split <;> exact .of_eq rfl rfl rfl rfl

theorem closed_moves (doc : DocumentId) (s : Session σ) : Moves s (s.closed doc) := by
  have hcanceled := (aside_releaseTriggers s doc).trans
    (aside_delays _ (s.lintDelay.cancel doc) (s.renderDelay.cancel doc) s.statusDelay)
  refine (hcanceled.moves.tail (.forget _ doc)).trans (Aside.moves ?_)
  exact .of_eq rfl rfl rfl rfl

theorem edited_moves (doc : DocumentId) (now : Nat) (s : Session σ) : Moves s (s.edited doc now) := by
  unfold edited
  split
  · exact .refl
  · exact (aside_delays s (s.lintDelay.schedule doc now) s.renderDelay s.statusDelay).moves

theorem goToNext_cases (s : Session σ) :
    s.goToNext = (none, s) ∨ ∃ doc p,
      s.goToNext = (some p, { s with editor := s.editor.setCursor doc p }.updateStatus) := by
  unfold goToNext
  split
  · exact .inl rfl
  · dsimp only
    split
    · exact .inl rfl
    · exact .inr ⟨_, _, rfl⟩

theorem goToDisplayed_cases (s : Session σ) :
    s.goToDisplayed = (none, s) ∨ ∃ doc p,
      s.goToDisplayed = (some p, { s with editor := s.editor.setCursor doc p }) := by
  unfold goToDisplayed
  split
  · exact .inl rfl
  · split
    · exact .inr ⟨_, _, rfl⟩
    · exact .inl rfl

theorem aside_setCursor (s : Session σ) (doc : DocumentId) (p : Position) :
    Aside s { s with editor := s.editor.setCursor doc p } :=
  ⟨rfl, rfl, rfl, rfl, rfl, rfl, rfl, Nat.le_refl _⟩

theorem goToNext_moves (s : Session σ) : Moves s s.goToNext.2 := by
  rcases s.goToNext_cases with h | ⟨doc, p, h⟩
  · rw [h]
  · rw [h]
    exact (aside_setCursor s doc p).moves.tail (.refresh _)

theorem goToDisplayed_moves (s : Session σ) : Moves s s.goToDisplayed.2 := by
  rcases s.goToDisplayed_cases with h | ⟨doc, p, h⟩
  · rw [h]
  · rw [h]
    exact (aside_setCursor s doc p).moves

theorem act_moves (sv : Services σ) (s : Session σ) (a : Act σ) : Moves s (s.act sv a) := by
  cases a with
  | opened doc now => exact opened_moves doc now s
  | activated doc => exact activated_moves sv doc s
  | closed doc => exact closed_moves doc s
  | edited doc now => exact edited_moves doc now s
  | saved doc now =>
      exact (aside_delays s (s.lintDelay.schedule doc now) s.renderDelay s.statusDelay).moves
  | scrolled doc now =>
      exact (aside_delays s s.lintDelay (s.renderDelay.schedule doc now) s.statusDelay).moves
  | cursorMoved doc now =>
      exact (aside_delays s s.lintDelay s.renderDelay (s.statusDelay.schedule () now)).moves
  | reconfigured settings => exact reconfigure_moves sv settings s
  | ticked now => exact tick_moves sv now s
  | askedToLint => exact lintNow_moves sv s
  | passed doc => exact runPass_moves sv doc s
  | wentToNext => exact goToNext_moves s
  | wentToDisplayed => exact goToDisplayed_moves s
  | arranged desk => exact Aside.moves ⟨rfl, rfl, rfl, rfl, rfl, rfl, rfl, Nat.le_refl _⟩
  | served services => exact Aside.moves (.of_eq rfl rfl rfl rfl)

theorem run_moves (sv : Services σ) (s : Session σ) (acts : List (Act σ)) : Moves s (s.run sv acts) :=
  run_induction (Moves s) .refl (fun t a h => h.trans (act_moves sv t a)) acts

end LintMargin.Session
