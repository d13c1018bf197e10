import LintMargin.Proofs.Margin.Custody
import LintMargin.Proofs.Session.Closing

/-!
# Sessions account for what they had made

A session holds the handles of all anchors, tooltips and listeners that the editor has for it, and lets
them go once. `Accounted` says so; every step keeps it, so it holds after every run.
-/

namespace LintMargin

universe u

open Function (update)

/-! ### Listeners -/

theorem Editor.foldl_unsubscribe_eq (handles : List Handle) (e : Editor) :
    handles.foldl Editor.unsubscribe e =
      { e with
        listeners := e.listeners.filter fun h _ => !handles.contains h
        journal := e.journal ++ handles.map .unsubscribe } := by
  induction handles generalizing e with
  | nil => simp [SortedMap.filter_true]
  | cons h rest ih =>
      rw [List.foldl_cons, ih]
      simp only [Editor.unsubscribe, Editor.note, SortedMap.filter_erase, List.append_assoc,
        List.map_cons, List.singleton_append]

theorem SubscriptionGroup.released_add (g : SubscriptionGroup Handle) (h : Handle) :
    (g.add (.live h)).released = g.released ++ [h] := by
  simp [SubscriptionGroup.released, SubscriptionGroup.add, Subscription.released]

/-- The listeners of the editor are those that are held, by their documents. -/
structure Listening (held : DocumentId → List Handle) (e : Editor) : Prop where
  listener : ∀ h doc, h ∈ held doc ↔ ∃ event, e.listeners.get? h = some (doc, event)
  distinct : ∀ doc, (held doc).Nodup

namespace Listening

variable {held : DocumentId → List Handle} {e f : Editor}

theorem congr (h : Listening held e) (hlisteners : f.listeners = e.listeners) : Listening held f :=
  ⟨fun g doc => by rw [hlisteners, h.listener], h.distinct⟩

theorem doc_eq (h : Listening held e) {g : Handle} {doc d : DocumentId} (hdoc : g ∈ held doc)
    (hd : g ∈ held d) : doc = d := by
  obtain ⟨event, hevent⟩ := (h.listener g doc).mp hdoc
  obtain ⟨other, hother⟩ := (h.listener g d).mp hd
  rw [hevent] at hother
  exact congrArg Prod.fst (Option.some.inj hother)

/-- The listeners of a document may go together. -/
theorem unsubscribeAll (h : Listening held e) (doc : DocumentId) :
    Listening (update held doc []) ((held doc).foldl Editor.unsubscribe e) := by
  rw [Editor.foldl_unsubscribe_eq]
  constructor
  case listener =>
      intro g d
      simp only [SortedMap.get?_filter, Option.filter_eq_some_iff, Bool.not_eq_true',
        List.contains_eq_mem, decide_eq_false_iff_not, exists_and_right, ← h.listener]
      by_cases hd : d = doc
      · subst hd
        simp
      · rw [Function.update_of_ne hd]
        exact ⟨fun hin => ⟨hin, fun hdoc => hd (h.doc_eq hin hdoc)⟩, And.left⟩
  case distinct =>
      intro d
      by_cases hd : d = doc
      · subst hd
        simp
      · rw [Function.update_of_ne hd]
        exact h.distinct d

/-- A new listener joins those of its document. -/
theorem subscribe (h : Listening held e) (hnew : e.listeners.get? e.freshHandle = none)
    (doc : DocumentId) (event : DocumentEvent) :
    Listening (update held doc (held doc ++ [e.freshHandle])) (e.subscribe doc event).2 := by
  have habsent : ∀ d, e.freshHandle ∉ held d := by
    intro d hin
    obtain ⟨other, hother⟩ := (h.listener _ d).mp hin
    rw [hnew] at hother
    cases hother
  constructor
  case listener =>
      intro g d
      simp only [Editor.subscribe, Editor.note, SortedMap.get?_insert]
      by_cases hg : e.freshHandle = g
      · subst hg
        by_cases hd : d = doc
        · subst hd
          simp
        · simp [Function.update_of_ne hd, habsent d, Ne.symm hd]
      · rw [if_neg hg, ← h.listener]
        by_cases hd : d = doc
        · subst hd
          simp [Ne.symm hg]
        · rw [Function.update_of_ne hd]
  case distinct =>
      intro d
      by_cases hd : d = doc
      · subst hd
        rw [Function.update_self]
        refine List.nodup_append'.mpr ⟨h.distinct d, by simp, ?_⟩
        simpa using habsent d
      · rw [Function.update_of_ne hd]
        exact h.distinct d

end Listening

namespace Session

variable {σ : Type u}

/-- The listeners that are held of a document. -/
def listeners (s : Session σ) (doc : DocumentId) : List Handle :=
  SubscriptionGroup.released ((s.triggers.get? doc).getD [])

theorem listeners_releaseTriggers (s : Session σ) (doc : DocumentId) :
    (s.releaseTriggers doc).listeners = update s.listeners doc [] := by
  funext d
  by_cases hd : d = doc
  · subst hd
    simp [listeners, Session.releaseTriggers, SubscriptionGroup.released]
  · simp [listeners, Session.releaseTriggers, SortedMap.get?_erase_of_ne _ (Ne.symm hd), hd]

theorem listeners_registerTriggers (s : Session σ) (doc : DocumentId) :
    (s.registerTriggers doc).listeners = update s.listeners doc
      ((wantedEvents s.settings).foldl (listen doc) ([], (s.releaseTriggers doc).editor)).1.released := by
  funext d
  by_cases hd : d = doc
  · subst hd
    simp [listeners, Session.registerTriggers]
    rfl
  · simp [listeners, Session.registerTriggers, Session.releaseTriggers,
      SortedMap.get?_insert_of_ne _ _ (Ne.symm hd), SortedMap.get?_erase_of_ne _ (Ne.symm hd), hd]

/-- All that the editor was asked to make is held or was taken away in a proper way. -/
structure Accounted (s : Session σ) : Prop where
  held : Held s.renderer.handles s.anchors s.editor
  listening : Listening s.listeners s.editor
  recorded : s.editor.Recorded

theorem accounted_start (manner : Manner) (status : Option String) (services : σ)
    (settings : Settings) : (start (.fresh manner status) services settings).Accounted where
  held := Held.empty manner status
  listening := by
    constructor <;> simp [start, listeners, SubscriptionGroup.released, Editor.fresh]
  recorded := Editor.Recorded.empty manner status

namespace Accounted

variable {s t : Session σ} {doc : DocumentId}

/-- Requests that have to do with no handle, and changes to other things than what is held. -/
theorem congr (hs : s.Accounted) (hanchors : t.anchors = s.anchors)
    (htooltips : t.renderer.tooltips = s.renderer.tooltips) (htriggers : t.triggers = s.triggers)
    {calls : List Call} (hjournal : t.editor.journal = s.editor.journal ++ calls)
    (hcalls : ∀ c ∈ calls, c.handle? = none) (hmarkers : t.editor.markers = s.editor.markers)
    (hshown : t.editor.tooltips = s.editor.tooltips)
    (hlisteners : t.editor.listeners = s.editor.listeners)
    (hmanner : t.editor.manner = s.editor.manner) (hissued : t.editor.issued = s.editor.issued) :
    t.Accounted where
  held := by
    have hhandles : t.renderer.handles = s.renderer.handles := by
      funext d
      rw [Renderer.handles, Renderer.tooltipGroup, htooltips]
      rfl
    rw [hanchors, hhandles]
    exact hs.held.congr hmarkers hshown hmanner (Nat.le_of_eq hissued.symm)
  listening := by
    have hheld : t.listeners = s.listeners := by
      funext d
      rw [listeners, htriggers, listeners]
    rw [hheld]
    exact hs.listening.congr hlisteners
  recorded := hs.recorded.quiet hjournal hcalls hmarkers hshown hlisteners hmanner hissued

theorem beside (hs : s.Accounted) (h : Beside s t) : t.Accounted := by
  obtain ⟨calls, hjournal, hcalls⟩ := h.editor.asked
  refine hs.congr h.anchors h.tooltips h.triggers hjournal (fun c hc => ?_) h.editor.markers
    h.editor.tooltips h.editor.listeners h.editor.manner h.editor.issued
  have hneutral := hcalls c hc
  cases c <;> first | rfl | cases hneutral

theorem setPhase (hs : s.Accounted) (doc : DocumentId) (p : Phase) : (s.setPhase doc p).Accounted :=
  ⟨hs.held, hs.listening, hs.recorded⟩

theorem stored (hs : s.Accounted) (sv : Services σ) (doc : DocumentId) (d : Document)
    (config : LintConfig) : (s.stored sv doc d config).Accounted :=
  hs.congr rfl rfl rfl (journal_stored sv doc d config s) (by simp [lintCall, Call.handle?]) rfl rfl
    rfl rfl rfl

theorem draw (hs : s.Accounted) (doc : DocumentId) : (s.draw doc).Accounted := by
  obtain ⟨made, hredrawn⟩ := Renderer.exists_redrawn hs.held s.store doc
  exact ⟨hredrawn.held, hs.listening.congr hredrawn.offMargin.listeners,
    hs.recorded.draw hs.held s.store doc⟩

theorem render (hs : s.Accounted) (doc : DocumentId) : (s.render doc).Accounted := by
  rw [render_eq]
  exact (hs.draw doc).beside (beside_updateStatus _)

theorem forgetDiagnostics (hs : s.Accounted) (doc : DocumentId) :
    (s.forgetDiagnostics doc).Accounted where
  held := held_forgetDiagnostics hs.held doc
  listening := by
    refine hs.listening.congr ?_
    change (Renderer.releaseAll (s.renderer.handles doc)
      (s.anchors.removeAll doc s.editor).2).listeners = _
    rw [Renderer.releaseAll_eq, Anchors.removeAll, Anchors.destroyAll_eq]
  recorded := hs.recorded.clear hs.held doc

theorem releaseTriggers (hs : s.Accounted) (doc : DocumentId) : (s.releaseTriggers doc).Accounted := by
  have haside := aside_releaseTriggers s doc
  constructor
  case held => exact hs.held.congr haside.markers haside.tooltips haside.manner haside.issued
  case listening =>
      rw [listeners_releaseTriggers]
      exact hs.listening.unsubscribeAll doc
  case recorded =>
      exact hs.recorded.unsubscribeAll (hs.listening.distinct doc)
        fun h hin => (hs.listening.listener h doc).mp hin

theorem registerTriggers (hs : s.Accounted) (doc : DocumentId) :
    (s.registerTriggers doc).Accounted := by
  have haside := aside_registerTriggers s doc
  have hreleased := hs.releaseTriggers doc
  have hstart := hreleased.listening
  rw [listeners_releaseTriggers] at hstart
  -- The listeners of the document are those that were made so far.
  have hmade := List.foldlRecOn
    (motive := fun x : SubscriptionGroup Handle × Editor =>
      Listening (update s.listeners doc x.1.released) x.2 ∧ x.2.Recorded)
    (wantedEvents (s.releaseTriggers doc).settings) (listen doc)
    (b := ([], (s.releaseTriggers doc).editor)) ⟨hstart, hreleased.recorded⟩
    fun x hx event _ => by
      have hjoined := hx.1.subscribe hx.2.fresh_not_listening doc event
      rw [Function.update_self, Function.update_idem, ← SubscriptionGroup.released_add] at hjoined
      exact ⟨hjoined, hx.2.subscribe doc event⟩
  constructor
  case held => exact hs.held.congr haside.markers haside.tooltips haside.manner haside.issued
  case listening =>
      rw [listeners_registerTriggers]
      exact hmade.1
  case recorded => exact hmade.2

theorem runPass (hs : s.Accounted) (sv : Services σ) (doc : DocumentId) :
    (s.runPass sv doc).2.Accounted := by
  have hresult := runPass_result sv doc s
  generalize s.runPass sv doc = result at hresult ⊢
  cases hresult with
  | noDocument => exact hs
  | unsupported => exact hs
  | @ignored _ path =>
      have hforgotten := (hs.beside (beside_askIgnored sv path s)).forgetDiagnostics doc
      exact (hforgotten.beside (beside_updateStatus _)).setPhase doc .clean
  | @noConfig d => exact hs.beside (beside_lookUp sv d s)
  | @linted d =>
      rw [lintDocument_eq]
      have hstored := (hs.beside (beside_lookUp sv d s)).stored sv doc d (s.lookUp sv d).1
      exact (hstored.render doc).setPhase doc .annotated

theorem step {sv : Services σ} {P : DocumentId → Prop} {made : List (DocumentId × Outcome)}
    (h : Step sv P made s t) (hs : s.Accounted) : t.Accounted := by
  cases h with
  | beside h => exact hs.beside h
  | arrange _ desk =>
      have hjournal : (s.editor.arrange desk).journal = s.editor.journal ++ [] :=
        (List.append_nil _).symm
      exact hs.congr rfl rfl rfl hjournal (fun _ hc => nomatch hc) rfl rfl rfl rfl rfl
  | @pass _ doc => exact hs.runPass sv doc
  | @render _ doc => exact hs.render doc
  | @purge _ doc =>
      have hforgotten := hs.forgetDiagnostics doc
      exact ⟨hforgotten.held, hforgotten.listening, hforgotten.recorded⟩
  | @release _ doc => exact hs.releaseTriggers doc
  | @register _ doc => exact hs.registerTriggers doc
  | @greet _ doc => exact hs.setPhase doc .clean

/-- Where nothing is kept of a document, nothing of it is shown. -/
theorem not_shows (hs : s.Accounted) (hnone : s.KeepsNothing doc) {h : Handle} {x : Thing}
    (hx : x.doc = doc) : ¬ s.editor.Shows h x := by
  subst hx
  cases x with
  | anchor d row =>
      rintro ⟨decorations, hm⟩
      have hheld : s.anchors.anchor? d row = some h := ((hs.held.anchor h _).mp hm).2
      have hnothing : s.anchors.get? d = none := hnone.anchors
      simp [Anchors.anchor?, Anchors.ofDocument, hnothing] at hheld
  | tooltip d t =>
      intro ht
      have hheld : h ∈ s.renderer.handles d := (hs.held.tooltip h d).mpr ⟨t, ht⟩
      have hnothing : s.renderer.tooltips.get? d = none := hnone.tooltips
      simp [Renderer.handles, Renderer.tooltipGroup, hnothing, SubscriptionGroup.released] at hheld
  | listener d event =>
      intro hl
      have hheld : h ∈ s.listeners d := (hs.listening.listener h d).mpr ⟨event, hl⟩
      have hnothing : s.triggers.get? d = none := hnone.triggers
      simp [listeners, hnothing, SubscriptionGroup.released] at hheld

end Accounted

theorem Reachable.accounted {sv : Services σ} {s : Session σ} (h : Reachable sv s) :
    s.Accounted := by
  obtain ⟨manner, status, services, settings, acts, rfl⟩ := h
  exact (run_steps_of_true sv _ acts).keep (fun _ _ _ hstep hs => hs.step hstep)
    (accounted_start manner status services settings)

/-! ### After every run -/

/-- In any run of a session that began in a fresh editor, every request is proper after those before it.
So nothing is taken away twice, and no anchor gets more than two decorations. Once a document is closed,
everything that was ever made for it was taken away once. -/
theorem handles_linear (sv : Services σ) (manner : Manner) (status : Option String) (services : σ)
    (settings : Settings) (acts : List (Act σ)) :
    let s := (start (.fresh manner status) services settings).run sv acts
    AllProper s.editor.journal ∧ (endedIn s.editor.journal).Nodup ∧
    (∀ h, (decoratedIn s.editor.journal).count h ≤ 2) ∧
    ∀ doc h thing, thing.doc = doc → (h, thing) ∈ madeIn (s.closed doc).editor.journal →
      (endedIn (s.closed doc).editor.journal).count h = 1 := by
  intro s
  have hs : Reachable sv s := ⟨manner, status, services, settings, acts, rfl⟩
  have hproper := hs.accounted.recorded.proper
  refine ⟨hproper, hproper.nodup_endedIn, hproper.count_decoratedIn, ?_⟩
  intro doc h thing hdoc hmade
  have hclosed : (s.closed doc).Accounted := (hs.act (.closed doc)).accounted
  have hgone : ¬ Live (s.closed doc).editor.journal h thing := fun hlive =>
    hclosed.not_shows (keepsNothing_closed s doc) hdoc (hclosed.recorded.shows_iff.mpr hlive)
  have hended : h ∈ endedIn (s.closed doc).editor.journal :=
    Decidable.not_not.mp fun hstanding => hgone ⟨hmade, hstanding⟩
  exact List.count_eq_one_of_mem hclosed.recorded.proper.nodup_endedIn hended

end Session

end LintMargin
