import LintMargin.Proofs.Session.Desk
import LintMargin.Proofs.Session.Wiring

/-!
# Documents do not interfere

All documents share the books, the schedules and the editor of a session. Still, an act that is about one
document leaves everything that is held and shown of the others as it is, whatever comes of it.
-/

namespace LintMargin

universe u

variable {σ : Type u}

/-- The anchors of a document, with their names, rows and decorations. -/
def Editor.liveMarkers (e : Editor) (doc : DocumentId) : List (Handle × Marker) :=
  e.markers.entries.filter fun x => x.2.doc = doc

namespace Act

/-- The document that an act is about, if it is about a single one by its nature. -/
def subject? : Act σ → Option DocumentId
  | .opened doc _ | .activated doc | .closed doc | .edited doc _ | .saved doc _ | .scrolled doc _
  | .cursorMoved doc _ | .passed doc => some doc
  | _ => none

/-- What an act does to the deadlines for drawing. -/
def postpone : Act σ → Debouncer DocumentId → Debouncer DocumentId
  | .scrolled doc now, d => d.schedule doc now
  | .closed doc, d => d.cancel doc
  | .ticked now, d => (d.takeDue now).2
  | .reconfigured settings, d => d.setDelay settings.delays.render
  | _, d => d

end Act

namespace Session

variable {s t r : Session σ} {doc d : DocumentId}

/-! ### What is held of a document -/

/-- All that is held of a document, its listeners apart, and all that the editor shows of it in the margin
is as before. -/
structure Intact (doc : DocumentId) (s t : Session σ) : Prop where
  store : t.store.get? doc = s.store.get? doc
  anchors : t.anchors.get? doc = s.anchors.get? doc
  tooltips : t.renderer.tooltips.get? doc = s.renderer.tooltips.get? doc
  phase : t.phase? doc = s.phase? doc
  lintDue : t.lintDelay.deadline? doc = s.lintDelay.deadline? doc
  renderDue : t.renderDelay.deadline? doc = s.renderDelay.deadline? doc
  liveMarkers : t.editor.liveMarkers doc = s.editor.liveMarkers doc
  liveTooltips : t.editor.liveTooltips doc = s.editor.liveTooltips doc

/-- A document is listened to by the same listeners as before. -/
structure Overheard (doc : DocumentId) (s t : Session σ) : Prop where
  triggers : t.triggers.get? doc = s.triggers.get? doc
  liveListeners : t.editor.liveListeners doc = s.editor.liveListeners doc

/-- All listeners of a document are new ones, one for each event that the settings ask for. There are none
if it was not listened to. -/
structure Relistened (doc : DocumentId) (s t : Session σ) : Prop where
  known : t.triggers.contains doc = s.triggers.contains doc
  fresh : ∀ x ∈ t.editor.liveListeners doc, ¬ s.editor.Issued x.1
  heard : (t.editor.heard doc).Perm
    (if s.triggers.contains doc then wantedEvents t.settings else [])

theorem Intact.trans (h : Intact doc s t) (h' : Intact doc t r) : Intact doc s r where
  store := h'.store.trans h.store
  anchors := h'.anchors.trans h.anchors
  tooltips := h'.tooltips.trans h.tooltips
  phase := h'.phase.trans h.phase
  lintDue := h'.lintDue.trans h.lintDue
  renderDue := h'.renderDue.trans h.renderDue
  liveMarkers := h'.liveMarkers.trans h.liveMarkers
  liveTooltips := h'.liveTooltips.trans h.liveTooltips

/-! ### Where the books agree, the editor does -/

theorem liveMarkers_eq (hs : s.Accounted) (ht : t.Accounted)
    (hanchors : t.anchors.get? doc = s.anchors.get? doc) :
    t.editor.liveMarkers doc = s.editor.liveMarkers doc := by
  apply SortedMap.filter_entries_eq
  rintro h m hdoc
  obtain rfl : m.doc = doc := of_decide_eq_true hdoc
  rw [ht.held.anchor, hs.held.anchor, Anchors.anchor?, Anchors.ofDocument, hanchors]
  rfl

theorem liveTooltips_eq (hs : s.Accounted) (ht : t.Accounted)
    (htooltips : t.renderer.tooltips.get? doc = s.renderer.tooltips.get? doc) {calls : List Call}
    (hlater : t.editor.journal = s.editor.journal ++ calls) :
    t.editor.liveTooltips doc = s.editor.liveTooltips doc := by
  have hnames : t.renderer.handles doc = s.renderer.handles doc := by
    rw [Renderer.handles, Renderer.tooltipGroup, htooltips]
    rfl
  have hheld : ∀ h, h ∈ s.renderer.handles doc ↔ ∃ u, t.editor.tooltips.get? h = some (doc, u) := by
    rw [← hnames]
    exact fun h => ht.held.tooltip h doc
  refine Editor.share_eq_of_names hheld (fun h => hs.held.tooltip h doc) fun h a b ha hb => ?_
  have hsame := hs.recorded.thing_eq_later ht.recorded hlater (x := .tooltip doc b)
    (y := .tooltip doc a) hb ha
  exact ((Thing.tooltip.inj hsame).2).symm

theorem liveListeners_eq (hs : s.Accounted) (ht : t.Accounted)
    (htriggers : t.triggers.get? doc = s.triggers.get? doc) {calls : List Call}
    (hlater : t.editor.journal = s.editor.journal ++ calls) :
    t.editor.liveListeners doc = s.editor.liveListeners doc := by
  have hnames : t.listeners doc = s.listeners doc := by rw [listeners, htriggers, listeners]
  have hheld : ∀ h, h ∈ s.listeners doc ↔ ∃ k, t.editor.listeners.get? h = some (doc, k) := by
    rw [← hnames]
    exact fun h => ht.listening.listener h doc
  refine Editor.share_eq_of_names hheld (fun h => hs.listening.listener h doc) fun h a b ha hb => ?_
  have hsame := hs.recorded.thing_eq_later ht.recorded hlater (x := .listener doc b)
    (y := .listener doc a) hb ha
  exact ((Thing.listener.inj hsame).2).symm

theorem Spares.intact (h : Spares doc s t) (hs : s.Accounted) (ht : t.Accounted)
    (hlint : t.lintDelay.deadline? doc = s.lintDelay.deadline? doc)
    (hrender : t.renderDelay.deadline? doc = s.renderDelay.deadline? doc) : Intact doc s t := by
  obtain ⟨calls, hlater, -⟩ := h.asked
  constructor
  case store => exact h.store
  case anchors => exact h.anchors
  case tooltips => exact h.tooltips
  case phase => exact h.phases
  case lintDue => exact hlint
  case renderDue => exact hrender
  case liveMarkers => exact liveMarkers_eq hs ht h.anchors
  case liveTooltips => exact liveTooltips_eq hs ht h.tooltips hlater

theorem Spares.overheard (h : Spares doc s t) (hs : s.Accounted) (ht : t.Accounted) :
    Overheard doc s t := by
  obtain ⟨calls, hlater, -⟩ := h.asked
  exact ⟨h.triggers, liveListeners_eq hs ht h.triggers hlater⟩

/-! ### Deadlines for drawing -/

theorem renderDelay_act (sv : Services σ) (s : Session σ) (a : Act σ) :
    (s.act sv a).renderDelay = a.postpone s.renderDelay := by
  cases a with
  | opened doc now =>
      simp only [act, opened]
      split <;> rfl
  | activated doc =>
      exact (confined_activated sv doc s).renderDelay.trans (delays_attend s doc).2
  | edited doc now =>
      simp only [act, edited]
      split <;> rfl
  | reconfigured settings =>
      exact (confined_lintNow sv _).renderDelay.trans (delays_retune sv settings s).2
  | ticked now => exact (confined_tick sv now s).renderDelay
  | askedToLint => exact (confined_lintNow sv s).renderDelay
  | passed doc => exact (confined_runPass sv doc s).renderDelay
  | wentToNext =>
      simp only [act]
      rcases s.goToNext_cases with h | ⟨doc, p, h⟩ <;> rw [h] <;> rfl
  | wentToDisplayed =>
      simp only [act]
      rcases s.goToDisplayed_cases with h | ⟨doc, p, h⟩ <;> rw [h] <;> rfl
  | closed | saved | scrolled | cursorMoved | arranged | served => rfl

/-! ### Acts that are about one document -/

section Subject

variable {a : Act σ}

theorem undisturbed_act_of_subject? (ha : a.subject? = some d) (sv : Services σ) (s : Session σ) :
    Undisturbed s (s.act sv a) := by
  cases a with
  | opened doc now =>
      refine (undisturbed_registerTriggers s doc).trans ?_
      simp only [act, opened]
      split <;> exact ⟨⟨rfl, rfl⟩, rfl⟩
  | activated doc =>
      exact (undisturbed_attend s doc).trans (confined_activated sv doc s).undisturbed
  | closed doc => exact undisturbed_closed s doc
  | edited doc now =>
      simp only [act, edited]
      split <;> exact ⟨⟨rfl, rfl⟩, rfl⟩
  | saved | scrolled | cursorMoved => exact ⟨⟨rfl, rfl⟩, rfl⟩
  | passed doc => exact (confined_runPass sv doc s).undisturbed
  | _ => cases ha

theorem spares_act_of_subject? (ha : a.subject? = some d) (hne : d ≠ doc) (sv : Services σ)
    (s : Session σ) : Spares doc s (s.act sv a) := by
  refine (act_steps (P := (· = d)) a fun k hk => .inl ?_).spares (Ne.symm hne)
  cases a with
  | opened | activated | closed | passed =>
      obtain rfl := Option.some.inj ha
      exact hk.symm
  | edited | saved | scrolled | cursorMoved => exact hk.elim
  | _ => cases ha

theorem intact_act_of_subject? (hs : Reachable sv s) (ha : a.subject? = some d) (hne : d ≠ doc) :
    Intact doc s (s.act sv a) := by
  refine (spares_act_of_subject? ha hne sv s).intact hs.accounted (hs.act a).accounted ?_ ?_
  · refine deadline?_act_of_not_settles hs.timed sv ?_ fun t _ => ?_
    · cases a with
      | opened | saved | edited =>
          obtain rfl := Option.some.inj ha
          simp [Act.asks, hne]
      | _ => rfl
    · cases a with
      | activated | closed =>
          obtain rfl := Option.some.inj ha
          exact hne
      | askedToLint | reconfigured | ticked => cases ha
      | _ => exact id
  · rw [renderDelay_act]
    cases a with
    | scrolled k now =>
        obtain rfl := Option.some.inj ha
        rw [Act.postpone, Debouncer.deadline?_schedule, if_neg hne]
    | closed k =>
        obtain rfl := Option.some.inj ha
        rw [Act.postpone, Debouncer.deadline?_cancel, if_neg hne]
    | reconfigured | ticked => cases ha
    | _ => rfl

end Subject

/-! ### Ticks -/

section Tick

variable {now : Nat}

theorem spares_tick (hlint : ∀ t, s.lintDelay.deadline? doc = some t → now < t)
    (hrender : ∀ t, s.renderDelay.deadline? doc = some t → now < t) (sv : Services σ) :
    Spares doc s (s.tick sv now).2 := by
  refine (tick_steps (P := (· ≠ doc)) now (fun d hd => .inl ?_) fun d hd => .inl ?_).spares
    (not_not.mpr rfl)
  · rintro rfl
    obtain ⟨t, ht, hdue⟩ := Debouncer.mem_takeDue_iff.mp hd
    exact Nat.not_lt.mpr hdue (hlint t ht)
  · rintro rfl
    obtain ⟨t, ht, hdue⟩ := Debouncer.mem_takeDue_iff.mp hd
    exact Nat.not_lt.mpr hdue (hrender t ht)

theorem intact_tick {sv : Services σ} (hs : Reachable sv s)
    (hlint : ∀ t, s.lintDelay.deadline? doc = some t → now < t)
    (hrender : ∀ t, s.renderDelay.deadline? doc = some t → now < t) :
    Intact doc s (s.tick sv now).2 := by
  refine (spares_tick hlint hrender sv).intact hs.accounted (hs.act (.ticked now)).accounted ?_ ?_
  · exact deadline?_act_of_not_settles hs.timed sv (a := .ticked now) rfl
      fun t ht => Nat.not_le.mpr (hlint t ht)
  · rw [(confined_tick sv now s).renderDelay]
    ext t
    rw [Debouncer.deadline?_takeDue]
    exact ⟨And.left, fun ht => ⟨ht, hrender t ht⟩⟩

end Tick

/-! ### New settings -/

section Settings

variable {sv : Services σ} {settings : Settings}

theorem accounted_retune (hs : s.Accounted) : (s.retune sv settings).Accounted :=
  retune_induction (hs.beside (beside_adopt sv settings s)) fun _ doc _ hr => hr.registerTriggers doc

theorem untouched_reconfigure (sv : Services σ) (settings : Settings) (s : Session σ) :
    s.editor.Untouched (s.reconfigure sv settings).2.editor := by
  have hretuned := (undisturbed_retune sv settings s).editor
  have hlinted := (confined_lintNow sv (s.retune sv settings)).undisturbed.editor
  exact ⟨hlinted.desk.trans hretuned.desk, hlinted.manner.trans hretuned.manner⟩

theorem intact_retune (sv : Services σ) (settings : Settings) (s : Session σ) (doc : DocumentId) :
    Intact doc s (s.retune sv settings) := by
  have haside := aside_retune sv settings s
  have hphases : (s.retune sv settings).phases = s.phases :=
    retune_induction (P := fun r => r.phases = s.phases) rfl fun _ _ _ hr => hr
  obtain ⟨hlint, hrender⟩ := delays_retune sv settings s
  constructor
  case store => rw [haside.store]
  case anchors => rw [haside.anchors]
  case tooltips => rw [haside.renderer]
  case phase => rw [phase?, hphases, phase?]
  case lintDue => rw [hlint, Debouncer.deadline?_setDelay]
  case renderDue => rw [hrender, Debouncer.deadline?_setDelay]
  case liveMarkers => rw [Editor.liveMarkers, haside.markers, Editor.liveMarkers]
  case liveTooltips => rw [Editor.liveTooltips, haside.tooltips, Editor.liveTooltips]

/-- Listening anew to some documents gives each of them new listeners. -/
theorem not_issued_foldl_registerTriggers {docs : List DocumentId} (hdoc : doc ∈ docs) {h : Handle}
    (hin : h ∈ (docs.foldl (fun r doc => r.registerTriggers doc) s).listeners doc) :
    ¬ s.editor.Issued h := by
  have hothers : ∀ (rest : List DocumentId) (r : Session σ), doc ∉ rest →
      (rest.foldl (fun r doc => r.registerTriggers doc) r).listeners doc = r.listeners doc := by
    intro rest r hnot
    refine List.foldlRecOn (motive := fun k : Session σ => k.listeners doc = r.listeners doc) _ _ rfl
      fun k hk d hd => ?_
    have hne : doc ≠ d := fun heq => hnot (heq ▸ hd)
    rw [listeners_registerTriggers, Function.update_of_ne hne, hk]
  induction docs generalizing s with
  | nil => cases hdoc
  | cons first rest ih =>
      intro hissued
      have haside := aside_registerTriggers s first
      by_cases hrest : doc ∈ rest
      · exact ih hrest hin (hissued.mono haside.manner haside.issued)
      · obtain rfl : doc = first := (List.mem_cons.mp hdoc).resolve_right hrest
        obtain ⟨made, f, hmade, heq⟩ := exists_subscribed s doc
        rw [List.foldl_cons, hothers rest _ hrest, heq, listeners, SortedMap.get?_insert_self,
          Option.getD_some, Renderer.released_map_live] at hin
        have hreleased := aside_releaseTriggers s doc
        exact hmade.unissued h hin (hissued.mono hreleased.manner hreleased.issued)

theorem relistened_reconfigure (hs : Reachable sv s) (settings : Settings) (doc : DocumentId) :
    Relistened doc s (s.reconfigure sv settings).2 := by
  have hlater : Reachable sv (s.reconfigure sv settings).2 := hs.act (.reconfigured settings)
  have hattentive := attentive_lintNow sv (s.retune sv settings)
  have hknown : (s.reconfigure sv settings).2.triggers.contains doc = s.triggers.contains doc := by
    rw [reconfigure_eq, hattentive.triggers, Bool.eq_iff_iff]
    exact contains_retune
  constructor
  case known => exact hknown
  case fresh =>
      rintro ⟨h, event⟩ hlive
      have hheld : h ∈ (s.reconfigure sv settings).2.listeners doc :=
        (hlater.accounted.listening.listener h doc).mpr ⟨event, Editor.mem_share.mp hlive⟩
      have hsame : (s.reconfigure sv settings).2.listeners doc = (s.retune sv settings).listeners doc := by
        rw [reconfigure_eq, listeners, hattentive.triggers, listeners]
      rw [hsame] at hheld
      have hkey : doc ∈ s.triggers.keys :=
        SortedMap.isSome_get?_iff.mp (contains_retune.mp (contains_of_mem_listeners hheld))
      exact not_issued_foldl_registerTriggers (s := s.adopt sv settings) hkey hheld
  case heard =>
      rw [← hknown]
      cases hdoc : (s.reconfigure sv settings).2.triggers.contains doc with
      | true => exact hlater.wired.heard_perm hlater.accounted hdoc
      | false => exact (hlater.accounted.heard_eq_nil hdoc).symm ▸ .nil

theorem intact_reconfigure (hs : Reachable sv s) (hactive : s.editor.active ≠ some doc) :
    Intact doc s (s.reconfigure sv settings).2 := by
  have hfocus : (s.retune sv settings).editor.active = s.editor.active :=
    (undisturbed_retune sv settings s).editor.active
  have hspared : Spares doc (s.retune sv settings) (s.reconfigure sv settings).2 :=
    (lintNow_steps (P := fun d => s.editor.active = some d) fun d hd =>
      .inl (hfocus.symm.trans hd)).spares hactive
  refine (intact_retune sv settings s doc).trans (hspared.intact (accounted_retune hs.accounted)
    (hs.act (.reconfigured settings)).accounted ?_ ?_)
  · ext t
    rw [reconfigure_eq, deadline?_lintNow, hfocus]
    exact and_iff_right hactive
  · rw [reconfigure_eq, (confined_lintNow sv _).renderDelay]

end Settings

/-! ### After every run -/

/-- Whatever was done before, and whatever the services answer: an act about one document leaves all that
is held and shown of another one as it is, and so does a tick that neither lints nor draws it. New settings
do the same for every document without the focus, but that it is listened to anew. Focus, cursors and texts
of documents are no matter of these acts. -/
theorem neighbours_intact {sv : Services σ} {s : Session σ} (hs : Reachable sv s) (doc : DocumentId) :
    (∀ (a : Act σ) d, a.subject? = some d → d ≠ doc →
      Undisturbed s (s.act sv a) ∧ Intact doc s (s.act sv a) ∧ Overheard doc s (s.act sv a)) ∧
    (∀ now, (∀ t, s.lintDelay.deadline? doc = some t → now < t) →
      (∀ t, s.renderDelay.deadline? doc = some t → now < t) →
      Undisturbed s (s.tick sv now).2 ∧ Intact doc s (s.tick sv now).2 ∧
        Overheard doc s (s.tick sv now).2) ∧
    ∀ settings, s.editor.active ≠ some doc →
      s.editor.Untouched (s.reconfigure sv settings).2.editor ∧
      Intact doc s (s.reconfigure sv settings).2 ∧ Relistened doc s (s.reconfigure sv settings).2 := by
  refine ⟨fun a d ha hne => ⟨?_, ?_, ?_⟩, fun now hlint hrender => ⟨?_, ?_, ?_⟩,
    fun settings hactive => ⟨?_, ?_, ?_⟩⟩
  · exact undisturbed_act_of_subject? ha sv s
  · exact intact_act_of_subject? hs ha hne
  · exact (spares_act_of_subject? ha hne sv s).overheard hs.accounted (hs.act a).accounted
  · exact undisturbed_tick sv now s
  · exact intact_tick hs hlint hrender
  · exact (spares_tick hlint hrender sv).overheard hs.accounted (hs.act (.ticked now)).accounted
  · exact untouched_reconfigure sv settings s
  · exact intact_reconfigure hs hactive
  · exact relistened_reconfigure hs settings doc

/-- Two documents with an issue each. The one without the focus waits to be linted and drawn. -/
def neighbouring : Session Report :=
  (start .empty [some ⟨1, 1, "first", none⟩] {}).run .reporting
    [.arranged ⟨(SortedMap.insert ∅ ⟨7⟩ ⟨"a", none, "source.js"⟩).insert ⟨8⟩ ⟨"b", none, "source.js"⟩,
        some ⟨8⟩, ∅⟩,
      .activated ⟨7⟩, .activated ⟨8⟩, .saved ⟨7⟩ 100, .scrolled ⟨7⟩ 100]

theorem neighbours_intact_neighbouring :
    let s := neighbouring
    Reachable .reporting s ∧
    ((s.editor.liveTooltips ⟨7⟩).length = 1 ∧ (s.editor.heard ⟨7⟩).length = 4) ∧
    ((s.editor.liveMarkers ⟨8⟩).length = 1 ∧ (s.closed ⟨8⟩).editor.liveMarkers ⟨8⟩ = []) ∧
    (Intact ⟨7⟩ s (s.closed ⟨8⟩) ∧ Overheard ⟨7⟩ s (s.closed ⟨8⟩)) ∧
    Intact ⟨7⟩ s (s.tick .reporting 100).2 ∧
    s.editor.active ≠ some ⟨7⟩ ∧ Intact ⟨7⟩ s (s.reconfigure .reporting {}).2 ∧
    Relistened ⟨7⟩ s (s.reconfigure .reporting {}).2 := by
  intro s
  have hs : Reachable .reporting s := ⟨.plain, none, [some ⟨1, 1, "first", none⟩], {}, _, rfl⟩
  have hactive : s.editor.active ≠ some ⟨7⟩ := by decide
  have hlint : ∀ t, s.lintDelay.deadline? ⟨7⟩ = some t → 100 < t := by
    have hdeadline : s.lintDelay.deadline? ⟨7⟩ = some 150 := by decide
    intro t ht
    rw [hdeadline, Option.some.injEq] at ht
    omega
  have hrender : ∀ t, s.renderDelay.deadline? ⟨7⟩ = some t → 100 < t := by
    have hdeadline : s.renderDelay.deadline? ⟨7⟩ = some 300 := by decide
    intro t ht
    rw [hdeadline, Option.some.injEq] at ht
    omega
  obtain ⟨hact, htick, hreconfigure⟩ := neighbours_intact hs ⟨7⟩
  exact ⟨hs, by decide, by decide, (hact (.closed ⟨8⟩) ⟨8⟩ rfl (by decide)).2,
    (htick 100 hlint hrender).2.1, hactive, (hreconfigure {} hactive).2⟩

end Session

end LintMargin
