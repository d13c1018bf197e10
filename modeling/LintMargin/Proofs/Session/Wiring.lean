import LintMargin.Proofs.History
import LintMargin.Proofs.Session.Custody

/-!
# Listening to documents

A document is listened to from when it is opened or gets the focus until it is closed, and always to the
events that the settings in force ask for. `Followed` and `settingsAfter` read both off the acts of a run;
after every run the listeners in the editor agree with them.
-/

namespace LintMargin

universe u

variable {σ : Type u}

/-! ### Listeners in the editor -/

namespace Editor

/-- The listeners of a document with their names. -/
def liveListeners (e : Editor) (doc : DocumentId) : List (Handle × DocumentEvent) :=
  share doc e.listeners

/-- The events of a document that are listened to, each as often as there is a listener for it. -/
def heard (e : Editor) (doc : DocumentId) : List DocumentEvent := (e.liveListeners doc).map Prod.snd

/-- Listening to some events of a document led from one editor to another and made the listeners in
`made`. -/
structure Subscribed (doc : DocumentId) (events : List DocumentEvent) (e : Editor)
    (made : List Handle) (f : Editor) : Prop where
  others : ∀ h, h ∉ made → f.listeners.get? h = e.listeners.get? h
  unissued : ∀ h ∈ made, ¬ e.Issued h
  heard : made.map f.listeners.get? = events.map fun event => some (doc, event)

theorem exists_foldl_listen (doc : DocumentId) (events : List DocumentEvent)
    (g : SubscriptionGroup Handle) (e : Editor) :
    ∃ made f, events.foldl (Session.listen doc) (g, e) = (g ++ made.map .live, f) ∧
      Subscribed doc events e made f := by
  induction events generalizing g e with
  | nil => exact ⟨[], e, by simp, ⟨fun _ _ => rfl, by simp, rfl⟩⟩
  | cons event rest ih =>
      obtain ⟨made, f, hfold, hrest⟩ :=
        ih (g.add (.live e.freshHandle)) (e.subscribe doc event).2
      have hnot : e.freshHandle ∉ made := fun hin =>
        hrest.unissued _ hin (issued_freshHandle rfl (Nat.lt_succ_self _))
      refine ⟨e.freshHandle :: made, f, ?_, ?_⟩
      · rw [List.foldl_cons]
        refine hfold.trans ?_
        simp [SubscriptionGroup.add]
      · constructor
        case others =>
            intro h hout
            rw [List.mem_cons, not_or] at hout
            rw [hrest.others h hout.2]
            exact SortedMap.get?_insert_of_ne _ _ (Ne.symm hout.1)
        case unissued =>
            intro h hin hissued
            rcases List.mem_cons.mp hin with rfl | hin
            · exact e.not_issued_freshHandle hissued
            · exact hrest.unissued h hin (hissued.mono rfl (Nat.le_succ _))
        case heard =>
            rw [List.map_cons, List.map_cons, hrest.heard, hrest.others _ hnot]
            exact congrArg (· :: _) (SortedMap.get?_insert_self _ _ _)

end Editor

namespace Session

/-! ### The events that are wanted -/

theorem mem_wantedEvents_iff {settings : Settings} {event : DocumentEvent} :
    event ∈ wantedEvents settings ↔ (event = .modified → settings.validateOnlyOnSave = false) := by
  unfold wantedEvents
  cases settings.validateOnlyOnSave <;> cases event <;> simp

theorem nodup_wantedEvents (settings : Settings) : (wantedEvents settings).Nodup := by
  unfold wantedEvents
  split <;> decide

/-! ### Releasing and registering -/

variable {s t : Session σ} {doc d : DocumentId} {h : Handle}

/-- The listeners of a document that are held wait for the events that the settings ask for. -/
def Tuned (s : Session σ) (doc : DocumentId) : Prop :=
  (s.listeners doc).map s.editor.listeners.get? =
    (wantedEvents s.settings).map fun event => some (doc, event)

/-- Every document whose events are waited for is listened to as the settings ask. -/
def Wired (s : Session σ) : Prop := ∀ doc, s.triggers.contains doc = true → s.Tuned doc

theorem exists_subscribed (s : Session σ) (doc : DocumentId) :
    ∃ made f, Editor.Subscribed doc (wantedEvents s.settings) (s.releaseTriggers doc).editor made f ∧
      s.registerTriggers doc =
        { s with editor := f, triggers := (s.triggers.erase doc).insert doc (made.map .live) } := by
  obtain ⟨made, f, hfold, hmade⟩ := Editor.exists_foldl_listen doc
    (wantedEvents (s.releaseTriggers doc).settings) [] (s.releaseTriggers doc).editor
  refine ⟨made, f, hmade, ?_⟩
  simp only [registerTriggers, hfold]
  rfl

theorem tuned_registerTriggers (s : Session σ) (doc : DocumentId) :
    (s.registerTriggers doc).Tuned doc := by
  obtain ⟨made, f, hmade, heq⟩ := exists_subscribed s doc
  rw [heq, Tuned, listeners, SortedMap.get?_insert_self, Option.getD_some,
    Renderer.released_map_live]
  exact hmade.heard

theorem contains_of_mem_listeners {h : Handle} (hin : h ∈ s.listeners doc) :
    s.triggers.contains doc = true := by
  cases hget : s.triggers.get? doc with
  | none =>
      rw [listeners, hget] at hin
      cases hin
  | some g => rw [SortedMap.contains, hget, Option.isSome_some]

theorem get?_listeners_releaseTriggers (hs : s.Accounted) (hd : doc ≠ d) (hin : h ∈ s.listeners d) :
    (s.releaseTriggers doc).editor.listeners.get? h = s.editor.listeners.get? h := by
  obtain ⟨event, hevent⟩ := (hs.listening.listener h d).mp hin
  have hnot : h ∉ s.listeners doc := fun hdoc => hd (hs.listening.doc_eq hdoc hin)
  change ((s.listeners doc).foldl Editor.unsubscribe s.editor).listeners.get? h = _
  rw [Editor.foldl_unsubscribe_eq]
  simp [SortedMap.get?_filter, hevent, Option.filter, hnot]

theorem get?_listeners_registerTriggers (hs : s.Accounted) (hd : doc ≠ d) (hin : h ∈ s.listeners d) :
    (s.registerTriggers doc).editor.listeners.get? h = s.editor.listeners.get? h := by
  obtain ⟨made, f, hmade, heq⟩ := exists_subscribed s doc
  obtain ⟨event, hevent⟩ := (hs.listening.listener h d).mp hin
  have hissued : s.editor.Issued h := hs.recorded.issued_of_shows (x := .listener d event) hevent
  have hreleased := aside_releaseTriggers s doc
  have hnot : h ∉ made := fun hmem =>
    hmade.unissued h hmem (hissued.mono hreleased.manner hreleased.issued)
  rw [heq]
  exact (hmade.others h hnot).trans (get?_listeners_releaseTriggers hs hd hin)

/-- Listening to other documents is not disturbed. -/
theorem Tuned.releaseTriggers (htuned : s.Tuned d) (hs : s.Accounted) (hd : doc ≠ d) :
    (s.releaseTriggers doc).Tuned d := by
  rw [Tuned, listeners_releaseTriggers, Function.update_of_ne (Ne.symm hd)]
  refine Eq.trans ?_ htuned
  exact List.map_congr_left fun h hin => get?_listeners_releaseTriggers hs hd hin

theorem Tuned.registerTriggers (htuned : s.Tuned d) (hs : s.Accounted) (doc : DocumentId) :
    (s.registerTriggers doc).Tuned d := by
  by_cases hd : doc = d
  · subst hd
    exact tuned_registerTriggers s doc
  · rw [Tuned, listeners_registerTriggers, Function.update_of_ne (Ne.symm hd)]
    refine Eq.trans ?_ htuned
    exact List.map_congr_left fun h hin => get?_listeners_registerTriggers hs hd hin

theorem contains_registerTriggers :
    (s.registerTriggers doc).triggers.contains d = true ↔ doc = d ∨ s.triggers.contains d = true := by
  obtain ⟨made, f, -, heq⟩ := exists_subscribed s doc
  rw [heq, SortedMap.contains, SortedMap.get?_insert, SortedMap.get?_erase]
  by_cases hd : doc = d <;> simp [hd, SortedMap.contains]

theorem contains_releaseTriggers :
    (s.releaseTriggers doc).triggers.contains d = true ↔ doc ≠ d ∧ s.triggers.contains d = true := by
  rw [Session.releaseTriggers, SortedMap.contains, SortedMap.get?_erase]
  by_cases hd : doc = d <;> simp [hd, SortedMap.contains]

/-- Listening anew to some documents serves them and those that were served before. -/
theorem tuned_foldl_registerTriggers {docs : List DocumentId} (hs : s.Accounted)
    (hd : d ∈ docs ∨ s.Tuned d) :
    (docs.foldl (fun r doc => r.registerTriggers doc) s).Tuned d := by
  induction docs generalizing s with
  | nil => exact hd.resolve_left List.not_mem_nil
  | cons doc rest ih =>
      refine ih (hs.registerTriggers doc) ?_
      rcases hd with hd | htuned
      · rcases List.mem_cons.mp hd with rfl | hd
        · exact .inr (tuned_registerTriggers s d)
        · exact .inl hd
      · exact .inr (htuned.registerTriggers hs doc)

theorem contains_foldl_registerTriggers {docs : List DocumentId} :
    (docs.foldl (fun r doc => r.registerTriggers doc) s).triggers.contains d = true ↔
      d ∈ docs ∨ s.triggers.contains d = true := by
  induction docs generalizing s with
  | nil => simp
  | cons doc rest ih =>
      rw [List.foldl_cons, ih, contains_registerTriggers, List.mem_cons, eq_comm]
      tauto

/-! ### What has no part in listening -/

/-- The same is listened to as before, with the same settings. -/
structure Attentive (s t : Session σ) : Prop where
  triggers : t.triggers = s.triggers
  listeners : t.editor.listeners = s.editor.listeners
  settings : t.settings = s.settings

theorem Attentive.trans {r : Session σ} (h : Attentive s t) (h' : Attentive t r) : Attentive s r :=
  ⟨h'.triggers.trans h.triggers, h'.listeners.trans h.listeners, h'.settings.trans h.settings⟩

theorem Attentive.symm (h : Attentive s t) : Attentive t s :=
  ⟨h.triggers.symm, h.listeners.symm, h.settings.symm⟩

theorem Attentive.wired (h : Attentive s t) (hs : s.Wired) : t.Wired := by
  intro doc hdoc
  rw [h.triggers] at hdoc
  rw [Tuned, Session.listeners, h.triggers, h.listeners, h.settings]
  exact hs doc hdoc

theorem Confined.attentive (h : Confined s t) : Attentive s t :=
  ⟨h.triggers, h.listeners, h.undisturbed.settings⟩

theorem attentive_tick (sv : Services σ) (now : Nat) (s : Session σ) :
    Attentive s (s.tick sv now).2 := by
  have hconfined := confined_tick sv now s
  exact ⟨hconfined.triggers, hconfined.listeners, hconfined.undisturbed.settings⟩

theorem attentive_lintNow (sv : Services σ) (s : Session σ) : Attentive s (s.lintNow sv).2 := by
  have hconfined := confined_lintNow sv s
  exact ⟨hconfined.triggers, hconfined.listeners, hconfined.undisturbed.settings⟩

/-! ### Acts as far as they are about listening -/

theorem contains_retune {sv : Services σ} {settings : Settings} :
    (s.retune sv settings).triggers.contains doc = true ↔ s.triggers.contains doc = true := by
  refine contains_foldl_registerTriggers.trans ?_
  rw [← SortedMap.isSome_get?_iff]
  exact or_self_iff

theorem wired_retune (hs : s.Accounted) (sv : Services σ) (settings : Settings) :
    (s.retune sv settings).Wired := by
  intro doc hdoc
  have hknown : doc ∈ s.triggers.keys := SortedMap.isSome_get?_iff.mp (contains_retune.mp hdoc)
  exact tuned_foldl_registerTriggers (hs.beside (beside_adopt sv settings s)) (.inl hknown)

/-- An act as far as it is about listening. -/
def rewire (sv : Services σ) (s : Session σ) : Act σ → Session σ
  | .opened doc _ => s.registerTriggers doc
  | .activated doc => if s.triggers.contains doc then s else s.registerTriggers doc
  | .closed doc => s.releaseTriggers doc
  | .reconfigured settings => s.retune sv settings
  | _ => s

theorem attentive_act (sv : Services σ) (s : Session σ) (a : Act σ) :
    Attentive (s.rewire sv a) (s.act sv a) := by
  cases a with
  | opened doc now =>
      simp only [rewire, act, opened]
      split <;> exact ⟨rfl, rfl, rfl⟩
  | activated doc =>
      have hattended : Attentive (s.rewire sv (.activated doc)) (s.attend doc) := ⟨rfl, rfl, rfl⟩
      exact hattended.trans (confined_activated sv doc s).attentive
  | closed doc =>
      have hforgotten := confined_forgetDiagnostics { s.releaseTriggers doc with
        lintDelay := s.lintDelay.cancel doc
        renderDelay := s.renderDelay.cancel doc } doc
      exact ⟨hforgotten.triggers, hforgotten.listeners, hforgotten.undisturbed.settings⟩
  | edited doc now =>
      simp only [rewire, act, edited]
      split <;> exact ⟨rfl, rfl, rfl⟩
  | reconfigured settings => exact attentive_lintNow sv (s.retune sv settings)
  | ticked now => exact attentive_tick sv now s
  | askedToLint => exact attentive_lintNow sv s
  | passed doc => exact (confined_runPass sv doc s).attentive
  | wentToNext =>
      exact ⟨(goToNext_beside s).triggers, (goToNext_beside s).editor.listeners,
        (onSchedule_goToNext s).settings⟩
  | wentToDisplayed =>
      exact ⟨(goToDisplayed_beside s).triggers, (goToDisplayed_beside s).editor.listeners,
        (onSchedule_goToDisplayed s).settings⟩
  | saved | scrolled | cursorMoved | arranged | served => exact ⟨rfl, rfl, rfl⟩

theorem Wired.act (hs : s.Wired) (haccounted : s.Accounted) (sv : Services σ) (a : Act σ) :
    (s.act sv a).Wired := by
  have hregistered : ∀ doc, (s.registerTriggers doc).Wired := by
    intro doc d hd
    rcases contains_registerTriggers.mp hd with rfl | hd
    · exact tuned_registerTriggers s doc
    · exact (hs d hd).registerTriggers haccounted doc
  refine (attentive_act sv s a).wired ?_
  cases a with
  | opened doc => exact hregistered doc
  | activated doc =>
      simp only [rewire]
      split
      · exact hs
      · exact hregistered doc
  | closed doc =>
      intro d hd
      obtain ⟨hne, hd⟩ := contains_releaseTriggers.mp hd
      exact (hs d hd).releaseTriggers haccounted hne
  | reconfigured settings => exact wired_retune haccounted sv settings
  | _ => exact hs

theorem wired_start (editor : Editor) (services : σ) (settings : Settings) :
    (start editor services settings).Wired := by
  intro doc hdoc
  cases hdoc

theorem Reachable.wired {sv : Services σ} (h : Reachable sv s) : s.Wired := by
  obtain ⟨manner, status, services, settings, acts, rfl⟩ := h
  induction acts using List.reverseRecOn with
  | nil => exact wired_start _ services settings
  | append_singleton acts a ih =>
      rw [run_concat]
      exact ih.act (Reachable.accounted ⟨manner, status, services, settings, acts, rfl⟩) sv a

end Session

/-! ### Reading runs -/

namespace Act

/-- Acts from which on a document is listened to. -/
def Follows (doc : DocumentId) : Act σ → Prop
  | .opened d _ | .activated d => d = doc
  | _ => False

/-- The settings that an act brings into force. -/
def settings? : Act σ → Option Settings
  | .reconfigured settings => some settings
  | _ => none

end Act

namespace Session

/-- A document was opened or got the focus, and was not closed since. -/
def Followed (acts : List (Act σ)) (doc : DocumentId) : Prop :=
  ∃ before a after, acts = before ++ a :: after ∧ a.Follows doc ∧ Act.closed doc ∉ after

/-- The settings in force after some acts. -/
def settingsAfter (settings : Settings) (acts : List (Act σ)) : Settings :=
  (acts.filterMap Act.settings?).getLast?.getD settings

theorem followed_iff_since {acts : List (Act σ)} {doc : DocumentId} :
    Followed acts doc ↔ Since (fun _ a => a.Follows doc) (fun _ a => a = .closed doc) acts := by
  have hclosed : ∀ after : List (Act σ), Act.closed doc ∉ after ↔
      ∀ between b rest, after = between ++ b :: rest → ¬ b = .closed doc := by
    intro after
    rw [List.mem_iff_append]
    constructor
    · rintro hnot between _ rest rfl rfl
      exact hnot ⟨between, rest, rfl⟩
    · rintro hnot ⟨between, rest, rfl⟩
      exact hnot between _ rest rfl rfl
  simp only [Followed, Since, hclosed]

theorem not_followed_nil (doc : DocumentId) : ¬ Followed ([] : List (Act σ)) doc := by
  rw [followed_iff_since]
  exact not_since_nil

theorem followed_concat {acts : List (Act σ)} {a : Act σ} {doc : DocumentId} :
    Followed (acts ++ [a]) doc ↔ a.Follows doc ∨ Followed acts doc ∧ a ≠ .closed doc := by
  rw [followed_iff_since, since_concat, ← followed_iff_since]

theorem settingsAfter_concat (settings : Settings) (acts : List (Act σ)) (a : Act σ) :
    settingsAfter settings (acts ++ [a]) = a.settings?.getD (settingsAfter settings acts) := by
  cases a <;> simp [settingsAfter, Act.settings?]

theorem contains_triggers_act (sv : Services σ) (s : Session σ) (a : Act σ) (doc : DocumentId) :
    (s.act sv a).triggers.contains doc = true ↔
      a.Follows doc ∨ s.triggers.contains doc = true ∧ a ≠ .closed doc := by
  rw [(attentive_act sv s a).triggers]
  cases a with
  | opened d now => simp [rewire, contains_registerTriggers, Act.Follows]
  | activated d =>
      simp only [rewire, Act.Follows]
      split
      · next hknown =>
          constructor
          · intro hdoc
            exact .inr ⟨hdoc, by simp⟩
          · rintro (rfl | hdoc)
            · exact hknown
            · exact hdoc.1
      · simp [contains_registerTriggers]
  | closed d =>
      simp only [rewire, contains_releaseTriggers, Act.Follows, false_or, ne_eq, Act.closed.injEq]
      exact and_comm
  | reconfigured settings => simp [rewire, contains_retune, Act.Follows]
  | _ => simp [rewire, Act.Follows]

theorem settings_act (sv : Services σ) (s : Session σ) (a : Act σ) :
    (s.act sv a).settings = a.settings?.getD s.settings := by
  rw [(attentive_act sv s a).settings]
  cases a with
  | reconfigured settings => exact (undisturbed_retune sv settings s).settings
  | activated doc =>
      simp only [rewire]
      split <;> rfl
  | _ => rfl

theorem contains_triggers_run (sv : Services σ) (editor : Editor) (services : σ) (settings : Settings)
    (acts : List (Act σ)) (doc : DocumentId) :
    ((start editor services settings).run sv acts).triggers.contains doc = true ↔
      Followed acts doc := by
  induction acts using List.reverseRecOn with
  | nil => exact iff_of_false Bool.false_ne_true (not_followed_nil doc)
  | append_singleton acts a ih => rw [run_concat, contains_triggers_act, followed_concat, ih]

theorem settings_run (sv : Services σ) (editor : Editor) (services : σ) (settings : Settings)
    (acts : List (Act σ)) :
    ((start editor services settings).run sv acts).settings = settingsAfter settings acts := by
  induction acts using List.reverseRecOn with
  | nil => rfl
  | append_singleton acts a ih => rw [run_concat, settings_act, settingsAfter_concat, ih]

/-! ### After every run -/

/-- The listeners of a document in the editor wait for what the settings ask for. -/
theorem Wired.heard_perm {s : Session σ} (hs : s.Wired) (haccounted : s.Accounted) {doc : DocumentId}
    (hdoc : s.triggers.contains doc = true) :
    (s.editor.heard doc).Perm (wantedEvents s.settings) :=
  Editor.share_values_perm (haccounted.listening.distinct doc)
    (fun h => haccounted.listening.listener h doc) (hs doc hdoc)

theorem Accounted.heard_eq_nil {s : Session σ} (hs : s.Accounted) {doc : DocumentId}
    (hdoc : s.triggers.contains doc = false) : s.editor.heard doc = [] := by
  rw [Editor.heard, List.map_eq_nil_iff, List.eq_nil_iff_forall_not_mem]
  rintro ⟨h, event⟩ hin
  have hheld : h ∈ s.listeners doc :=
    (hs.listening.listener h doc).mpr ⟨event, Editor.mem_share.mp hin⟩
  exact Bool.false_ne_true (hdoc.symm.trans (contains_of_mem_listeners hheld))

/-- After any run of a session that began in a fresh editor, its settings are the last ones it was given,
and an event of a document has a listener in the editor, and no more than one, if and only if the document
was opened or got the focus and was not closed since, and the event is not that of editing or the settings
do not bind linting to saving. -/
theorem listeners_follow_settings (sv : Services σ) (manner : Manner) (status : Option String)
    (services : σ) (settings : Settings) (acts : List (Act σ)) :
    let s := (start (.fresh manner status) services settings).run sv acts
    s.settings = settingsAfter settings acts ∧
    ∀ doc, (s.editor.heard doc).Nodup ∧ ∀ event, event ∈ s.editor.heard doc ↔
      Followed acts doc ∧ (event = .modified → s.settings.validateOnlyOnSave = false) := by
  intro s
  have hs : Reachable sv s := ⟨manner, status, services, settings, acts, rfl⟩
  refine ⟨settings_run sv _ services settings acts, fun doc => ?_⟩
  have hknown : s.triggers.contains doc = true ↔ Followed acts doc :=
    contains_triggers_run sv _ services settings acts doc
  rw [← hknown]
  cases hdoc : s.triggers.contains doc with
  | false =>
      rw [hs.accounted.heard_eq_nil hdoc]
      simp
  | true =>
      have hperm := hs.wired.heard_perm hs.accounted hdoc
      refine ⟨hperm.nodup_iff.mpr (nodup_wantedEvents s.settings), fun event => ?_⟩
      rw [hperm.mem_iff, mem_wantedEvents_iff]
      simp

end Session

end LintMargin
