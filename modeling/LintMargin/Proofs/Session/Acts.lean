import LintMargin.Proofs.Session.Schedule
import LintMargin.Proofs.Session.Step

/-!
# Acts in steps

`act_steps` takes every act apart into steps and accounts for all passes that it makes; `run_steps` does
the same for runs. What a step keeps is thereby kept by every run.
-/

namespace LintMargin

universe u

variable {σ : Type u}

/-! ### Passes and documents of acts -/

namespace Act

/-- The passes that an act makes, each as its document and its outcome. -/
def passes (sv : Services σ) (s : Session σ) : Act σ → List (DocumentId × Outcome)
  | .activated doc => [(doc, (s.activated sv doc).1)]
  | .passed doc => [(doc, (s.runPass sv doc).1)]
  | .askedToLint => s.editor.active.toList.zip (s.lintNow sv).1.toList
  | .reconfigured settings => s.editor.active.toList.zip (s.reconfigure sv settings).1.toList
  | .ticked now =>
    (Session.passAll sv (s.lintDelay.takeDue now).1
      { s with lintDelay := (s.lintDelay.takeDue now).2 }).1
  | _ => []

/-- Documents of which something may be made or taken away by an act. -/
def Concerns (s : Session σ) (doc : DocumentId) : Act σ → Prop
  | .opened d _ | .activated d | .closed d | .passed d => d = doc
  | .askedToLint => s.editor.active = some doc
  | .reconfigured _ => s.editor.active = some doc ∨ doc ∈ s.triggers.keys
  | .ticked now => doc ∈ (s.lintDelay.takeDue now).1 ∨ doc ∈ (s.renderDelay.takeDue now).1
  | .arranged desk => desk.documents.get? doc ≠ s.editor.documents.get? doc
  | _ => False

/-- Whether an act brings a document in: it is opened, or the session gets to know it. -/
def Brings (doc : DocumentId) : Act σ → Prop
  | .opened d _ | .activated d => d = doc
  | .arranged desk => desk.documents.get? doc ≠ none
  | _ => False

/-- Acts that bring in no other documents than those of `P`. -/
def Within (P : DocumentId → Prop) : Act σ → Prop
  | .opened doc _ | .activated doc => P doc
  | .arranged desk => ∀ doc, P doc ∨ desk.documents.get? doc = none
  | _ => True

end Act

namespace Session

/-- The passes of a run. -/
def passes (sv : Services σ) : Session σ → List (Act σ) → List (DocumentId × Outcome)
  | _, [] => []
  | s, a :: rest => a.passes sv s ++ passes sv (s.act sv a) rest

/-! ### Steps one after another -/

/-- Steps one after another, with all passes that they make. -/
inductive Steps (sv : Services σ) (P : DocumentId → Prop) :
    List (DocumentId × Outcome) → Session σ → Session σ → Prop where
  | refl (s : Session σ) : Steps sv P [] s s
  | tail {passes made : List (DocumentId × Outcome)} {s t r : Session σ}
      (h : Steps sv P passes s t) (hlast : Step sv P made t r) : Steps sv P (passes ++ made) s r

section Steps

variable {sv : Services σ} {P : DocumentId → Prop} {passes made : List (DocumentId × Outcome)}
  {s t r : Session σ} {d : DocumentId}

theorem Step.steps (h : Step sv P made s t) : Steps sv P made s t := (Steps.refl s).tail h

theorem Steps.trans (h : Steps sv P passes s t) (h' : Steps sv P made t r) :
    Steps sv P (passes ++ made) s r := by
  induction h' with
  | refl => rwa [List.append_nil]
  | tail _ hlast ih =>
      rw [← List.append_assoc]
      exact (ih h).tail hlast

/-- A step that makes no pass. -/
theorem Steps.quiet (h : Steps sv P passes s t) (hlast : Step sv P [] t r) : Steps sv P passes s r := by
  simpa using h.tail hlast

theorem Steps.aside (h : Steps sv P passes s t) (hlast : Beside t r) : Steps sv P passes s r :=
  h.quiet (.beside hlast)

/-- What every step keeps is kept by steps one after another. -/
theorem Steps.keep {Q : Session σ → Prop} (h : Steps sv P passes s t)
    (hstep : ∀ made s t, Step sv P made s t → Q s → Q t) (hs : Q s) : Q t := by
  induction h with
  | refl => exact hs
  | tail _ hlast ih => exact hstep _ _ _ hlast (ih hs)

theorem Steps.spares (h : Steps sv P passes s t) (hd : ¬ P d) : Spares d s t :=
  h.keep (fun _ _ _ hlast hs => hs.trans (hlast.spares hd)) (.refl d s)

theorem Steps.gone (h : Steps sv P passes s t) (hd : ¬ P d) (hs : s.Gone d) : t.Gone d :=
  h.keep (fun _ _ _ hlast hs => hlast.gone hd hs) hs

/-- A document stays one of `P` or gone. -/
theorem Steps.outside (h : Steps sv P passes s t) (hd : P d ∨ s.Gone d) : P d ∨ t.Gone d :=
  (em (P d)).imp_right fun hnot => h.gone hnot (hd.resolve_left hnot)

theorem Steps.lints (h : Steps sv P passes s t) :
    t.editor.lints = s.editor.lints + (lintedIn passes).length := by
  induction h with
  | refl => rfl
  | tail _ hlast ih =>
      rw [hlast.lints, ih]
      simp only [lintedIn, List.filter_append, List.map_append, List.length_append, Nat.add_assoc]

theorem Steps.outcome_of_mem (h : Steps sv P passes s t) (hd : ¬ P d) (hs : s.Gone d)
    {outcome : Outcome} (hmade : (d, outcome) ∈ passes) : outcome = .skipped .noDocument := by
  induction h with
  | refl => cases hmade
  | tail hsteps hlast ih =>
      rcases List.mem_append.mp hmade with hmade | hmade
      · exact ih hs hmade
      · exact hlast.outcome_of_mem (hsteps.gone hd hs) hmade

end Steps

/-! ### Acts are made of steps -/

section Acts

variable {sv : Services σ} {P : DocumentId → Prop} {s : Session σ} {doc : DocumentId}

theorem opened_steps (now : Nat) (hdoc : P doc) : Steps sv P [] s (s.opened doc now) := by
  have hregistered : Steps sv P [] s (s.registerTriggers doc) := (Step.register s hdoc).steps
  simp only [opened]
  split
  · exact hregistered.aside (beside_delays _ _ _ _)
  · next hnew =>
      have hgreeted := hregistered.quiet (.greet _ hdoc (Bool.not_eq_true _ ▸ hnew))
      exact hgreeted.aside (beside_delays _ _ _ _)

theorem activated_steps (hdoc : P doc) :
    Steps sv P [(doc, (s.activated sv doc).1)] s (s.activated sv doc).2 := by
  have hattended : Steps sv P [] s (s.attend doc) := by
    rcases s.attend_cases doc with h | h
    · rw [h]
      exact (Step.beside (beside_delays s _ s.renderDelay s.statusDelay)).steps
    · rw [h]
      exact (Step.register s hdoc).steps.aside (beside_delays _ _ s.renderDelay s.statusDelay)
  have hpassed := hattended.tail (.pass _ (.inl hdoc))
  rw [activated_eq]
  dsimp only
  split
  · exact hpassed.aside (beside_updateStatus _)
  · exact hpassed

theorem closed_steps (hdoc : P doc ∨ s.Gone doc) : Steps sv P [] s (s.closed doc) := by
  have hreleased : Steps sv P [] s (s.releaseTriggers doc) := (Step.release s hdoc).steps
  have hcanceled := hreleased.aside (beside_delays _
    ((s.releaseTriggers doc).lintDelay.cancel doc) ((s.releaseTriggers doc).renderDelay.cancel doc)
    (s.releaseTriggers doc).statusDelay)
  have hpurged := hcanceled.quiet (.purge _ (hcanceled.outside hdoc))
  exact hpurged.aside (beside_updateStatus _)

theorem lintNow_steps (h : ∀ d, s.editor.active = some d → P d ∨ s.Gone d) :
    Steps sv P (s.editor.active.toList.zip (s.lintNow sv).1.toList) s (s.lintNow sv).2 := by
  unfold lintNow
  cases hactive : s.editor.active with
  | none => exact .refl s
  | some d =>
      have hcanceled : Steps sv P [] s { s with lintDelay := s.lintDelay.cancel d } :=
        (Steps.refl s).aside (beside_delays s _ s.renderDelay s.statusDelay)
      exact hcanceled.tail (.pass _ (hcanceled.outside (h d hactive)))

theorem beside_adopt (sv : Services σ) (settings : Settings) (s : Session σ) :
    Beside s (s.adopt sv settings) :=
  ⟨rfl, rfl, rfl, rfl, rfl, s.editor.idle_note rfl⟩

theorem reconfigure_steps (settings : Settings)
    (hactive : ∀ d, s.editor.active = some d → P d ∨ s.Gone d)
    (hkeys : ∀ d ∈ s.triggers.keys, P d) :
    Steps sv P (s.editor.active.toList.zip (s.reconfigure sv settings).1.toList) s
      (s.reconfigure sv settings).2 := by
  have hregistered : Steps sv P [] s (s.retune sv settings) :=
    retune_induction (Step.beside (beside_adopt sv settings s)).steps
      fun r doc hdoc hr => hr.quiet (.register r (hkeys doc hdoc))
  have hfocus : (s.retune sv settings).editor.active = s.editor.active :=
    (undisturbed_retune sv settings s).editor.active
  rw [reconfigure_eq, ← hfocus]
  exact hregistered.trans (lintNow_steps fun d hd =>
    hregistered.outside (hactive d (hfocus.symm.trans hd)))

theorem passAll_steps {docs : List DocumentId} (hdocs : ∀ d ∈ docs, P d ∨ s.Gone d) :
    Steps sv P (passAll sv docs s).1 s (passAll sv docs s).2 := by
  induction docs generalizing s with
  | nil => exact .refl s
  | cons doc rest ih =>
      have hfirst : Steps sv P [(doc, (s.runPass sv doc).1)] s (s.runPass sv doc).2 :=
        (Step.pass s (hdocs doc List.mem_cons_self)).steps
      exact hfirst.trans (ih fun d hd => hfirst.outside (hdocs d (List.mem_cons_of_mem _ hd)))

theorem drawDue_steps (now : Nat) (linted : List DocumentId)
    (h : ∀ d ∈ (s.renderDelay.takeDue now).1, P d ∨ s.Gone d) :
    Steps sv P [] s (s.drawDue now linted).2 := by
  have htaken : Steps sv P [] s { s with renderDelay := (s.renderDelay.takeDue now).2 } :=
    (Steps.refl s).aside (beside_delays s s.lintDelay _ s.statusDelay)
  exact List.foldlRecOn (motive := Steps sv P [] s) _ _ htaken
    fun t ht d hd => ht.quiet (.render t (ht.outside (h d (List.mem_filter.mp hd).1)))

theorem refreshDue_beside (now : Nat) (s : Session σ) : Beside s (s.refreshDue now).2 := by
  have htaken := beside_delays s s.lintDelay s.renderDelay (s.statusDelay.takeDue now).2
  simp only [refreshDue]
  split
  · exact htaken
  · exact htaken.trans (beside_updateStatus _)

theorem tick_steps (now : Nat) (hlint : ∀ d ∈ (s.lintDelay.takeDue now).1, P d ∨ s.Gone d)
    (hrender : ∀ d ∈ (s.renderDelay.takeDue now).1, P d ∨ s.Gone d) :
    Steps sv P ((Act.ticked now).passes sv s) s (s.tick sv now).2 := by
  have htaken : Steps sv P [] s { s with lintDelay := (s.lintDelay.takeDue now).2 } :=
    (Steps.refl s).aside (beside_delays s _ s.renderDelay s.statusDelay)
  have hpassed := htaken.trans (passAll_steps fun d hd => htaken.outside (hlint d hd))
  have hdrawn := hpassed.trans (drawDue_steps now (lintedIn ((Act.ticked now).passes sv s))
    fun d hd => hpassed.outside (hrender d (by rwa [(confined_passAll sv _ _).renderDelay] at hd)))
  simp only [List.nil_append, List.append_nil] at hdrawn
  exact hdrawn.aside (refreshDue_beside now _)

theorem beside_setCursor (s : Session σ) (doc : DocumentId) (p : Position) :
    Beside s { s with editor := s.editor.setCursor doc p } :=
  ⟨rfl, rfl, rfl, rfl, rfl, ⟨rfl, rfl, rfl, rfl, rfl, rfl, .one rfl rfl⟩⟩

theorem goToNext_beside (s : Session σ) : Beside s s.goToNext.2 := by
  rcases s.goToNext_cases with h | ⟨doc, p, h⟩
  · rw [h]
    exact .refl s
  · rw [h]
    exact (beside_setCursor s doc p).trans (beside_updateStatus _)

theorem goToDisplayed_beside (s : Session σ) : Beside s s.goToDisplayed.2 := by
  rcases s.goToDisplayed_cases with h | ⟨doc, p, h⟩
  · rw [h]
    exact .refl s
  · rw [h]
    exact beside_setCursor s doc p

/-- Every act is made of steps about documents of `P` if it concerns only such documents, and others that
are gone and that it does not bring in. -/
theorem act_steps (a : Act σ) (h : ∀ d, a.Concerns s d → P d ∨ s.Gone d ∧ ¬ a.Brings d) :
    Steps sv P (a.passes sv s) s (s.act sv a) := by
  have hor : ∀ d, a.Concerns s d → P d ∨ s.Gone d := fun d hd => (h d hd).imp_right And.left
  cases a with
  | opened doc now => exact opened_steps now ((h doc rfl).resolve_right fun hgone => hgone.2 rfl)
  | activated doc => exact activated_steps ((h doc rfl).resolve_right fun hgone => hgone.2 rfl)
  | closed doc => exact closed_steps (hor doc rfl)
  | edited doc now =>
      simp only [act, edited]
      split
      · exact .refl s
      · exact (Step.beside (beside_delays s _ s.renderDelay s.statusDelay)).steps
  | saved doc now => exact (Step.beside (beside_delays s _ s.renderDelay s.statusDelay)).steps
  | scrolled doc now => exact (Step.beside (beside_delays s s.lintDelay _ s.statusDelay)).steps
  | cursorMoved doc now => exact (Step.beside (beside_delays s s.lintDelay s.renderDelay _)).steps
  | reconfigured settings =>
      refine reconfigure_steps settings (fun d hd => hor d (.inl hd)) fun d hd => ?_
      -- A document that is listened to is not gone.
      refine (hor d (.inr hd)).resolve_right fun hgone => ?_
      exact SortedMap.get?_eq_none_iff.mp hgone.keepsNothing.triggers hd
  | ticked now => exact tick_steps now (fun d hd => hor d (.inl hd)) fun d hd => hor d (.inr hd)
  | askedToLint => exact lintNow_steps hor
  | passed doc => exact (Step.pass s (hor doc rfl)).steps
  | wentToNext => exact (Step.beside (goToNext_beside s)).steps
  | wentToDisplayed => exact (Step.beside (goToDisplayed_beside s)).steps
  | arranged desk =>
      refine (Step.arrange s desk fun d => ?_).steps
      by_cases hsame : desk.documents.get? d = s.editor.documents.get? d
      · exact .inr hsame
      · refine .inl ((h d hsame).resolve_right fun hgone => ?_)
        exact hgone.2 fun hnone => hsame (hnone.trans hgone.1.absent.symm)
  | served services =>
      have hserved : Beside s { s with services } := ⟨rfl, rfl, rfl, rfl, rfl, .refl _⟩
      exact (Step.beside hserved).steps

end Acts

/-- A run is made of steps about documents of `P` if all others are gone at first and no act brings them
back. -/
theorem run_steps {sv : Services σ} {P : DocumentId → Prop} {s : Session σ} {acts : List (Act σ)}
    (hs : ∀ d, P d ∨ s.Gone d) (hacts : ∀ a ∈ acts, a.Within P) :
    Steps sv P (passes sv s acts) s (s.run sv acts) := by
  induction acts generalizing s with
  | nil => exact .refl s
  | cons a rest ih =>
      have hwithin := hacts a List.mem_cons_self
      have hfirst : Steps sv P (a.passes sv s) s (s.act sv a) := by
        refine act_steps a fun d hd => (em (P d)).imp_right fun hnot => ?_
        refine ⟨(hs d).resolve_left hnot, ?_⟩
        cases a with
        | opened | activated => exact fun heq : _ = d => hnot (heq ▸ hwithin)
        | arranged desk => exact fun hopen => hopen ((hwithin d).resolve_left hnot)
        | _ => exact id
      exact hfirst.trans
        (ih (fun d => hfirst.outside (hs d)) fun b hb => hacts b (List.mem_cons_of_mem _ hb))

/-- Any run is made of steps about any documents. -/
theorem run_steps_of_true (sv : Services σ) (s : Session σ) (acts : List (Act σ)) :
    Steps sv (fun _ => True) (passes sv s acts) s (s.run sv acts) := by
  refine run_steps (fun _ => .inl trivial) fun a _ => ?_
  cases a with
  | arranged desk => exact fun _ => .inl trivial
  | _ => exact trivial

end Session

end LintMargin
