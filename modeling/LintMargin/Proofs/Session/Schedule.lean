import LintMargin.Proofs.Debouncer
import LintMargin.Proofs.History
import LintMargin.Proofs.Session.Desk
import LintMargin.Proofs.Session.Step
import Mathlib.Data.List.Induction

/-!
# When documents are linted

A document waits to be linted from an act that asks for it until one that settles the matter. `Waiting`
reads this off the acts of a run, without regard to the deadlines that a session keeps; after every run
the two agree, and a tick passes over the documents whose time has come, one after another.
-/

namespace LintMargin

universe u

variable {σ : Type u}

/-! ### Asking and settling -/

namespace Act

/-- When a document should be linted because of an act, if it should be. -/
def asks (s : Session σ) (doc : DocumentId) : Act σ → Option Nat
  | .opened d now => if d = doc then some (now + s.settings.delays.lint) else none
  | .saved d now => if d = doc then some (now + s.settings.delays.lint) else none
  | .edited d now =>
    if d = doc ∧ s.settings.validateOnlyOnSave = false then some (now + s.settings.delays.lint)
    else none
  | _ => none

/-- Whether an act settles the matter of a document that should be linted at the given time: it is
linted, or it is closed. -/
def Settles (s : Session σ) (doc : DocumentId) (deadline : Nat) : Act σ → Prop
  | .activated d => d = doc
  | .closed d => d = doc
  | .askedToLint => s.editor.active = some doc
  | .reconfigured _ => s.editor.active = some doc
  | .ticked now => deadline ≤ now
  | _ => False

end Act

namespace Session

/-- The last of the acts that concern a document asked for it to be linted at the given time. -/
def Waiting (sv : Services σ) (s : Session σ) (acts : List (Act σ)) (doc : DocumentId)
    (deadline : Nat) : Prop :=
  ∃ before a after, acts = before ++ a :: after ∧
    a.asks (s.run sv before) doc = some deadline ∧
    ∀ between b rest, after = between ++ b :: rest →
      b.asks (s.run sv (before ++ a :: between)) doc = none ∧
        ¬ b.Settles (s.run sv (before ++ a :: between)) doc deadline

/-- A deadline is kept since it was asked for, until an act asks for another one or settles it. -/
theorem waiting_iff_since {sv : Services σ} {s : Session σ} {acts : List (Act σ)} {doc : DocumentId}
    {deadline : Nat} :
    Waiting sv s acts doc deadline ↔
      Since (fun before a => a.asks (s.run sv before) doc = some deadline)
        (fun before b => ¬ (b.asks (s.run sv before) doc = none ∧
          ¬ b.Settles (s.run sv before) doc deadline)) acts := by
  simp only [Waiting, Since, not_not]

theorem not_waiting_nil (sv : Services σ) (s : Session σ) (doc : DocumentId) (deadline : Nat) :
    ¬ Waiting sv s [] doc deadline := by
  rw [waiting_iff_since]
  exact not_since_nil

theorem waiting_concat {sv : Services σ} {s : Session σ} {acts : List (Act σ)} {a : Act σ}
    {doc : DocumentId} {deadline : Nat} :
    Waiting sv s (acts ++ [a]) doc deadline ↔
      a.asks (s.run sv acts) doc = some deadline ∨
        (a.asks (s.run sv acts) doc = none ∧ ¬ a.Settles (s.run sv acts) doc deadline ∧
          Waiting sv s acts doc deadline) := by
  rw [waiting_iff_since, since_concat, not_not, ← waiting_iff_since, and_comm, and_assoc]

/-! ### What keeps the schedule -/

/-- The same documents wait as before, with the same settings. -/
structure OnSchedule (s t : Session σ) : Prop where
  lintDelay : t.lintDelay = s.lintDelay
  settings : t.settings = s.settings

theorem Confined.onSchedule {s t : Session σ} (h : Confined s t) : OnSchedule s t :=
  ⟨h.lintDelay, h.undisturbed.settings⟩

theorem onSchedule_goToNext (s : Session σ) : OnSchedule s s.goToNext.2 := by
  rcases s.goToNext_cases with h | ⟨doc, p, h⟩ <;> rw [h] <;> exact ⟨rfl, rfl⟩

theorem onSchedule_goToDisplayed (s : Session σ) : OnSchedule s s.goToDisplayed.2 := by
  rcases s.goToDisplayed_cases with h | ⟨doc, p, h⟩ <;> rw [h] <;> exact ⟨rfl, rfl⟩

/-! ### Acts and deadlines -/

theorem onSchedule_activated (sv : Services σ) (doc : DocumentId) (s : Session σ) :
    OnSchedule { s with lintDelay := s.lintDelay.cancel doc } (s.activated sv doc).2 := by
  have hpassed := (confined_activated sv doc s).onSchedule
  exact ⟨hpassed.lintDelay.trans (delays_attend s doc).1,
    hpassed.settings.trans (undisturbed_attend s doc).settings⟩

/-- Linting at once takes the active document off the schedule. -/
theorem deadline?_lintNow (sv : Services σ) (s : Session σ) (doc : DocumentId) (t : Nat) :
    (s.lintNow sv).2.lintDelay.deadline? doc = some t ↔
      s.editor.active ≠ some doc ∧ s.lintDelay.deadline? doc = some t := by
  rw [(confined_lintNow sv s).lintDelay]
  cases s.editor.active with
  | none => simp
  | some d =>
      rw [Option.elim_some, Debouncer.deadline?_cancel]
      by_cases hd : d = doc <;> simp [hd]

theorem settings_lintNow (sv : Services σ) (s : Session σ) :
    (s.lintNow sv).2.settings = s.settings ∧
      (s.lintNow sv).2.lintDelay.delay = s.lintDelay.delay := by
  refine ⟨(confined_lintNow sv s).undisturbed.settings, ?_⟩
  rw [(confined_lintNow sv s).lintDelay]
  cases s.editor.active <;> rfl

/-- Taking over settings is linting at once with the new delay. -/
theorem exists_reconfigure_eq (sv : Services σ) (settings : Settings) (s : Session σ) :
    ∃ r : Session σ, s.reconfigure sv settings = r.lintNow sv ∧
      r.lintDelay = s.lintDelay.setDelay settings.delays.lint ∧ r.settings = settings ∧
      r.editor.active = s.editor.active :=
  ⟨s.retune sv settings, rfl, (delays_retune sv settings s).1, (undisturbed_retune sv settings s).settings,
    (undisturbed_retune sv settings s).editor.active⟩

theorem onSchedule_tick (sv : Services σ) (now : Nat) (s : Session σ) :
    OnSchedule { s with lintDelay := (s.lintDelay.takeDue now).2 } (s.tick sv now).2 :=
  ⟨(confined_tick sv now s).lintDelay, (confined_tick sv now s).undisturbed.settings⟩

/-- New deadlines come from the delay in the settings. -/
def Timed (s : Session σ) : Prop := s.lintDelay.delay = s.settings.delays.lint

theorem OnSchedule.timed {s t : Session σ} (h : OnSchedule s t) (hs : s.Timed) : t.Timed := by
  rw [Timed, h.lintDelay, h.settings]
  exact hs

theorem Timed.act {s : Session σ} (hs : s.Timed) (sv : Services σ) (a : Act σ) :
    (s.act sv a).Timed := by
  cases a with
  | opened doc now =>
      simp only [Session.act, opened]
      split <;> exact hs
  | activated doc => exact (onSchedule_activated sv doc s).timed hs
  | closed doc => exact hs
  | edited doc now =>
      simp only [Session.act, edited]
      split <;> exact hs
  | saved doc now => exact hs
  | scrolled doc now => exact hs
  | cursorMoved doc now => exact hs
  | reconfigured settings =>
      obtain ⟨r, heq, hdelay, hsettings, -⟩ := exists_reconfigure_eq sv settings s
      simp only [Session.act, heq, Timed, settings_lintNow, hdelay, hsettings]
      rfl
  | ticked now => exact (onSchedule_tick sv now s).timed hs
  | askedToLint =>
      simp only [Session.act, Timed, settings_lintNow]
      exact hs
  | passed doc => exact (confined_runPass sv doc s).onSchedule.timed hs
  | wentToNext => exact (onSchedule_goToNext s).timed hs
  | wentToDisplayed => exact (onSchedule_goToDisplayed s).timed hs
  | arranged desk => exact hs
  | served services => exact hs

theorem Reachable.timed {sv : Services σ} {s : Session σ} (h : Reachable sv s) : s.Timed := by
  obtain ⟨manner, status, services, settings, acts, rfl⟩ := h
  have hstart : (start (.fresh manner status) services settings).Timed := rfl
  exact run_induction Timed hstart (fun r a hr => hr.act sv a) acts

/-! ### Deadlines and what asked for them -/

/-- Scheduling a document replaces its deadline and no other. -/
theorem deadline?_schedule_iff {s : Session σ} (hs : s.Timed) (d doc : DocumentId) (now t : Nat) :
    (s.lintDelay.schedule d now).deadline? doc = some t ↔
      (if d = doc then some (now + s.settings.delays.lint) else none) = some t ∨
        ((if d = doc then some (now + s.settings.delays.lint) else none) = none ∧
          s.lintDelay.deadline? doc = some t) := by
  rw [Debouncer.deadline?_schedule, show s.lintDelay.delay = s.settings.delays.lint from hs]
  by_cases hd : d = doc <;> simp [hd]

/-- A document has a deadline after an act if the act asked for it, or if it had it before and the act
neither asked for another nor settled the matter. -/
theorem deadline?_act {s : Session σ} (hs : s.Timed) (sv : Services σ) (a : Act σ)
    (doc : DocumentId) (t : Nat) :
    (s.act sv a).lintDelay.deadline? doc = some t ↔
      a.asks s doc = some t ∨
        (a.asks s doc = none ∧ ¬ a.Settles s doc t ∧ s.lintDelay.deadline? doc = some t) := by
  cases a with
  | opened d now =>
      have hopened : (s.opened d now).lintDelay = s.lintDelay.schedule d now := by
        simp only [opened]
        split <;> rfl
      simp only [Session.act, hopened, Act.asks, Act.Settles, not_false_eq_true, true_and]
      exact deadline?_schedule_iff hs d doc now t
  | activated d =>
      simp only [Session.act, (onSchedule_activated sv d s).lintDelay, Act.asks, Act.Settles,
        Debouncer.deadline?_cancel]
      by_cases hd : d = doc <;> simp [hd]
  | closed d =>
      have hclosed : (s.closed d).lintDelay = s.lintDelay.cancel d := rfl
      simp only [Session.act, hclosed, Act.asks, Act.Settles, Debouncer.deadline?_cancel]
      by_cases hd : d = doc <;> simp [hd]
  | edited d now =>
      simp only [Session.act, edited, Act.asks, Act.Settles, not_false_eq_true, true_and]
      cases s.settings.validateOnlyOnSave with
      | true => simp
      | false =>
          simp only [Bool.false_eq_true, if_false, and_true]
          exact deadline?_schedule_iff hs d doc now t
  | saved d now =>
      simp only [Session.act, Act.asks, Act.Settles, not_false_eq_true, true_and]
      exact deadline?_schedule_iff hs d doc now t
  | reconfigured settings =>
      obtain ⟨r, heq, hdelay, -, hactive⟩ := exists_reconfigure_eq sv settings s
      simp [Session.act, heq, deadline?_lintNow, hdelay, hactive, Act.asks, Act.Settles]
  | ticked now =>
      simp only [Session.act, (onSchedule_tick sv now s).lintDelay, Debouncer.deadline?_takeDue,
        Act.asks, Act.Settles, Nat.not_le]
      simp [and_comm]
  | askedToLint => simp [Session.act, deadline?_lintNow, Act.asks, Act.Settles]
  | passed d => simp [Session.act, (confined_runPass sv d s).lintDelay, Act.asks, Act.Settles]
  | wentToNext => simp [Session.act, (onSchedule_goToNext s).lintDelay, Act.asks, Act.Settles]
  | wentToDisplayed =>
      simp [Session.act, (onSchedule_goToDisplayed s).lintDelay, Act.asks, Act.Settles]
  | scrolled d now => simp [Session.act, scrolled, Act.asks, Act.Settles]
  | cursorMoved d now => simp [Session.act, cursorMoved, Act.asks, Act.Settles]
  | arranged desk => simp [Session.act, Act.asks, Act.Settles]
  | served services => simp [Session.act, Act.asks, Act.Settles]

/-- An act that neither asks for a document to be linted nor settles the matter leaves its deadline. -/
theorem deadline?_act_of_not_settles {s : Session σ} (hs : s.Timed) (sv : Services σ) {a : Act σ}
    {doc : DocumentId} (hasks : a.asks s doc = none)
    (hopen : ∀ t, s.lintDelay.deadline? doc = some t → ¬ a.Settles s doc t) :
    (s.act sv a).lintDelay.deadline? doc = s.lintDelay.deadline? doc := by
  ext t
  rw [deadline?_act hs, hasks]
  constructor
  · rintro (hnone | ⟨-, -, hdeadline⟩)
    · cases hnone
    · exact hdeadline
  · intro hdeadline
    exact .inr ⟨rfl, hopen t hdeadline, hdeadline⟩

/-- In a run from a session without deadlines, the deadlines are those that its acts gave. -/
theorem deadline?_run_iff {s : Session σ} (hs : s.Timed)
    (hnone : ∀ doc, s.lintDelay.deadline? doc = none) (sv : Services σ) (acts : List (Act σ))
    (doc : DocumentId) (t : Nat) :
    (s.run sv acts).lintDelay.deadline? doc = some t ↔ Waiting sv s acts doc t := by
  -- Whether a document waits depends on its last acts, so the run is taken apart from its end.
  induction acts using List.reverseRecOn with
  | nil => simp [hnone, not_waiting_nil]
  | append_singleton acts a ih =>
      have htimed : (s.run sv acts).Timed := run_induction Timed hs (fun r b hr => hr.act sv b) acts
      rw [run_concat, deadline?_act htimed, waiting_concat, ih]

/-! ### Passes in turn -/

/-- Passes that are made in turn: each with the outcome that it has in the session which the one before
it has left. -/
inductive InTurn (sv : Services σ) :
    Session σ → List (DocumentId × Outcome) → Session σ → Prop where
  | nil (s : Session σ) : InTurn sv s [] s
  | cons {s next last : Session σ} {doc : DocumentId} {outcome : Outcome}
      {later : List (DocumentId × Outcome)} (hpass : s.runPass sv doc = (outcome, next))
      (hlater : InTurn sv next later last) : InTurn sv s ((doc, outcome) :: later) last

theorem inTurn_passAll (sv : Services σ) (docs : List DocumentId) (s : Session σ) :
    InTurn sv s (passAll sv docs s).1 (passAll sv docs s).2 := by
  induction docs generalizing s with
  | nil => exact .nil s
  | cons doc rest ih => exact .cons rfl (ih _)

theorem passed_by_passAll (sv : Services σ) (docs : List DocumentId) (s : Session σ) :
    (passAll sv docs s).1.map Prod.fst = docs := by
  induction docs generalizing s with
  | nil => rfl
  | cons doc rest ih => exact congrArg (doc :: ·) (ih _)

/-- After the passes of a tick nothing is stored and no service is asked. -/
theorem finishTick_keeps (now : Nat) (passed : List (DocumentId × Outcome) × Session σ) :
    (finishTick now passed).2.services = passed.2.services ∧
      (finishTick now passed).2.store = passed.2.store ∧
      (finishTick now passed).2.phases = passed.2.phases := by
  have hdrawn : (passed.2.drawDue now (lintedIn passed.1)).2.services = passed.2.services ∧
      (passed.2.drawDue now (lintedIn passed.1)).2.store = passed.2.store ∧
      (passed.2.drawDue now (lintedIn passed.1)).2.phases = passed.2.phases :=
    List.foldlRecOn (motive := fun t : Session σ => t.services = passed.2.services ∧
      t.store = passed.2.store ∧ t.phases = passed.2.phases) _ _ ⟨rfl, rfl, rfl⟩
      fun _ ht _ _ => ht
  simp only [finishTick, refreshDue]
  split <;> exact hdrawn

/-- No linter is asked for after the passes of a tick. -/
theorem lints_finishTick (now : Nat) (passed : List (DocumentId × Outcome) × Session σ) :
    (finishTick now passed).2.editor.lints = passed.2.editor.lints := by
  have hdrawn : (passed.2.drawDue now (lintedIn passed.1)).2.editor.lints = passed.2.editor.lints :=
    List.foldlRecOn (motive := fun t : Session σ => t.editor.lints = passed.2.editor.lints) _ _ rfl
      fun t ht doc _ => (lints_render t doc).trans ht
  simp only [finishTick, refreshDue]
  split
  · exact hdrawn
  · exact (beside_updateStatus _).lints_eq.trans hdrawn

/-- After any run, a document has a deadline if and only if it waits to be linted then. A tick passes
once over each document that waits and whose deadline has come, in ascending order and each time in the
session that the pass before has left, and over no other: when its passes are over, it only draws. Edits do
nothing while linting is bound to saving, and new settings move no deadline: they only take the active
document off the schedule, which is linted at once. -/
theorem lint_schedule (sv : Services σ) (editor : Editor) (services : σ) (settings : Settings)
    (acts : List (Act σ)) :
    let fresh := start editor services settings
    let s := fresh.run sv acts
    (∀ doc t, s.lintDelay.deadline? doc = some t ↔ Waiting sv fresh acts doc t) ∧
    (∀ now, ∃ due passes last,
      due.Pairwise (fun a b => a.number < b.number) ∧
      (∀ doc, doc ∈ due ↔ ∃ t, Waiting sv fresh acts doc t ∧ t ≤ now) ∧
      passes.map Prod.fst = due ∧
      InTurn sv { s with lintDelay := (s.lintDelay.takeDue now).2 } passes last ∧
      s.tick sv now = finishTick now (passes, last) ∧
      (s.tick sv now).2.services = last.services ∧ (s.tick sv now).2.store = last.store ∧
      (s.tick sv now).2.phases = last.phases ∧
      (s.tick sv now).2.editor.lints = last.editor.lints) ∧
    (∀ doc now, s.settings.validateOnlyOnSave = true → s.edited doc now = s) ∧
    ∀ other doc, s.editor.active ≠ some doc →
      (s.reconfigure sv other).2.lintDelay.deadline? doc = s.lintDelay.deadline? doc := by
  intro fresh s
  have hdeadline : ∀ doc t, s.lintDelay.deadline? doc = some t ↔ Waiting sv fresh acts doc t :=
    deadline?_run_iff (s := fresh) rfl (fun doc => Debouncer.deadline?_ofDelay _ doc) sv acts
  refine ⟨hdeadline, fun now => ?tick, ?edits, ?settings⟩
  case tick =>
      let passed := passAll sv (s.lintDelay.takeDue now).1
        { s with lintDelay := (s.lintDelay.takeDue now).2 }
      obtain ⟨hservices, hstore, hphases⟩ := finishTick_keeps now passed
      refine ⟨(s.lintDelay.takeDue now).1, passed.1, passed.2, ?_, fun doc => ?_,
        passed_by_passAll sv _ _, inTurn_passAll sv _ _, rfl, hservices, hstore, hphases,
        lints_finishTick now passed⟩
      · exact (s.lintDelay.takeDue_ascending now).imp UInt64.lt_iff_toNat_lt.mpr
      · simp only [Debouncer.mem_takeDue_iff, hdeadline]
  case edits =>
      intro doc now hsave
      rw [edited, if_pos hsave]
  case settings =>
      intro other doc hactive
      obtain ⟨r, heq, hdelay, -, hfocus⟩ := exists_reconfigure_eq sv other s
      ext t
      simp [heq, deadline?_lintNow, hdelay, hfocus, hactive]

end Session

end LintMargin
