import LintMargin.Proofs.Session.Acts
import LintMargin.Proofs.Session.Desk

/-!
# The status bar

The issue in the status bar is a copy, which the session keeps while diagnostics, focus and cursors
change. After every run the text in the bar belongs to the copy, and the copy to a group that is stored;
after the acts that look at the status bar the copy is the issue that the user should see.
-/

namespace LintMargin

universe u

/-! ### The issue that the user should see -/

/-- Nothing without a focus or without issues; else an issue from the row of the cursor, or else from the
lowest row. -/
inductive Chooses (store : Store) (e : Editor) : Option (DocumentId × Issue) → Prop where
  | unfocused (hactive : e.active = none) : Chooses store e none
  | clean {doc : DocumentId} (hactive : e.active = some doc)
      (hclean : ∀ row, store.group? doc row = none) : Chooses store e none
  | cursorRow {doc : DocumentId} {p : Position} {g : LineGroup} (hactive : e.active = some doc)
      (hcursor : e.cursors.get? doc = some p) (hgroup : store.group? doc p.row = some g) :
      Chooses store e (some (doc, g.first))
  | lowestRow {doc : DocumentId} {row : Row} {g : LineGroup} (hactive : e.active = some doc)
      (hcursor : ∀ p, e.cursors.get? doc = some p → store.group? doc p.row = none)
      (hgroup : store.group? doc row = some g) (hlowest : ∀ r ∈ store.rows doc, row ≤ r) :
      Chooses store e (some (doc, g.first))

theorem Chooses.choice_eq {store : Store} {e : Editor} {shown : Option (DocumentId × Issue)}
    (h : Chooses store e shown) : Renderer.choice store e = shown := by
  cases h with
  | unfocused hactive => simp [Renderer.choice, hactive]
  | @clean doc hactive hclean =>
      have hfirst : (store.diagnostics doc).firstGroup = none :=
        Diagnostics.firstGroup_eq_none_iff.mpr hclean
      have hcursor : ((e.cursors.get? doc).bind fun p => (store.diagnostics doc).get? p.row) = none := by
        cases e.cursors.get? doc with
        | none => rfl
        | some p => exact hclean p.row
      simp [Renderer.choice, hactive, hfirst, hcursor]
  | @cursorRow doc p g hactive hcursor hgroup =>
      have hget : (store.diagnostics doc).get? p.row = some g := hgroup
      simp [Renderer.choice, hactive, hcursor, hget]
  | @lowestRow doc row g hactive hcursor hgroup hlowest =>
      have hfirst : (store.diagnostics doc).firstGroup = some (row, g) :=
        Diagnostics.firstGroup_eq_some_iff.mpr ⟨hgroup, hlowest⟩
      have hnone : ((e.cursors.get? doc).bind fun p => (store.diagnostics doc).get? p.row) = none := by
        cases hp : e.cursors.get? doc with
        | none => rfl
        | some p => exact hcursor p hp
      simp [Renderer.choice, hactive, hfirst, hnone]

theorem chooses_choice (store : Store) (e : Editor) : Chooses store e (Renderer.choice store e) := by
  cases hactive : e.active with
  | none =>
      rw [show Renderer.choice store e = none by simp [Renderer.choice, hactive]]
      exact .unfocused hactive
  | some doc =>
      cases hrow : (e.cursors.get? doc).bind fun p => (store.diagnostics doc).get? p.row with
      | some g =>
          obtain ⟨p, hcursor, hgroup⟩ := Option.bind_eq_some_iff.mp hrow
          have hchoice := Chooses.cursorRow hactive hcursor hgroup
          rwa [hchoice.choice_eq]
      | none =>
          have hcursor : ∀ p, e.cursors.get? doc = some p → store.group? doc p.row = none := by
            intro p hp
            rw [hp] at hrow
            exact hrow
          cases hfirst : (store.diagnostics doc).firstGroup with
          | none =>
              have hchoice := Chooses.clean hactive (Diagnostics.firstGroup_eq_none_iff.mp hfirst)
              rwa [hchoice.choice_eq]
          | some entry =>
              obtain ⟨hgroup, hlowest⟩ := Diagnostics.firstGroup_eq_some_iff.mp hfirst
              have hchoice := Chooses.lowestRow hactive hcursor hgroup hlowest
              rwa [hchoice.choice_eq]

theorem chooses_iff {store : Store} {e : Editor} {shown : Option (DocumentId × Issue)} :
    Chooses store e shown ↔ Renderer.choice store e = shown :=
  ⟨Chooses.choice_eq, fun h => h ▸ chooses_choice store e⟩

/-- Whatever is chosen is the first issue of a stored group. -/
theorem Chooses.exists_group {store : Store} {e : Editor} {doc : DocumentId} {i : Issue}
    (h : Chooses store e (some (doc, i))) : ∃ row g, store.group? doc row = some g ∧ g.first = i := by
  cases h with
  | cursorRow _ _ hgroup => exact ⟨_, _, hgroup, rfl⟩
  | lowestRow _ _ hgroup => exact ⟨_, _, hgroup, rfl⟩

namespace Session

variable {σ : Type u}

/-! ### The copy is of a stored issue -/

/-- What is displayed is the first issue of a stored group, and the status bar has its text. -/
structure Backed (s : Session σ) : Prop where
  caption : ∀ shown, s.renderer.displayed = some shown → s.editor.status = some shown.2.statusText
  stored : ∀ doc i, s.renderer.displayed = some (doc, i) →
    ∃ g, s.store.group? doc i.row = some g ∧ g.first = i
  onRows : ∀ doc, (s.store.diagnostics doc).OnRows

theorem backed_start (manner : Manner) (status : Option String) (services : σ) (settings : Settings) :
    (start (.fresh manner status) services settings).Backed where
  caption shown h := by cases h
  stored doc i h := by cases h
  onRows doc := Diagnostics.onRows_empty

/-- Bringing the status bar up to date mends it. -/
theorem backed_updateStatus {s : Session σ} (hrows : ∀ doc, (s.store.diagnostics doc).OnRows) :
    s.updateStatus.Backed where
  caption shown h := by
    change (Renderer.choice s.store s.editor).map _ = _
    rw [show Renderer.choice s.store s.editor = some shown from h]
    rfl
  stored doc i h := by
    obtain ⟨row, g, hgroup, hfirst⟩ := (chooses_iff.mpr h).exists_group
    have hrow : i.row = row := hrows doc row g hgroup i (hfirst ▸ g.first_mem)
    exact ⟨g, hrow ▸ hgroup, hfirst⟩
  onRows := hrows

theorem Backed.move {s t : Session σ} (hmove : Move s t) (hs : s.Backed) : t.Backed := by
  cases hmove with
  | aside h =>
      constructor
      · rw [h.status, h.renderer]
        exact hs.caption
      · rw [h.renderer, h.store]
        exact hs.stored
      · rw [h.store]
        exact hs.onRows
  | refresh => exact backed_updateStatus hs.onRows
  | render doc =>
      rw [render_eq]
      exact backed_updateStatus hs.onRows
  | replace doc d hd =>
      rw [render_eq]
      refine backed_updateStatus fun k => ?_
      change ((s.store.insert doc d).get? k).getD ∅ |>.OnRows
      rw [SortedMap.get?_insert]
      split
      · exact hd
      · exact hs.onRows k
  | forget doc =>
      refine backed_updateStatus fun k => ?_
      change ((s.store.erase doc).get? k).getD ∅ |>.OnRows
      rw [SortedMap.get?_erase]
      split
      · exact Diagnostics.onRows_empty
      · exact hs.onRows k

theorem Reachable.backed {sv : Services σ} {s : Session σ} (h : Reachable sv s) : s.Backed := by
  obtain ⟨manner, status, services, settings, acts, rfl⟩ := h
  exact (run_moves sv _ acts).keep (fun _ _ hmove hs => hs.move hmove)
    (backed_start manner status services settings)

/-! ### Text, copy and store agree -/

/-- The status bar has the text of the displayed issue, which is the first one of a stored group. -/
structure Agrees (s : Session σ) : Prop where
  status : s.editor.status = s.renderer.displayed.map fun shown => shown.2.statusText
  stored : ∀ doc i, s.renderer.displayed = some (doc, i) →
    ∃ g, s.store.group? doc i.row = some g ∧ g.first = i
  onRows : ∀ doc, (s.store.diagnostics doc).OnRows

theorem agrees_start (manner : Manner) (services : σ) (settings : Settings) :
    (start (.fresh manner none) services settings).Agrees where
  status := rfl
  stored doc i h := by cases h
  onRows doc := Diagnostics.onRows_empty

theorem Agrees.backed {s : Session σ} (hs : s.Agrees) : s.Backed where
  caption shown h := by
    rw [hs.status, h]
    rfl
  stored := hs.stored
  onRows := hs.onRows

theorem Agrees.move {s t : Session σ} (hmove : Move s t) (hs : s.Agrees) : t.Agrees := by
  refine ⟨?_, (hs.backed.move hmove).stored, (hs.backed.move hmove).onRows⟩
  cases hmove with
  | aside h =>
      rw [h.status, h.renderer]
      exact hs.status
  | refresh | render | replace | forget => rfl

/-! ### Up to date -/

/-- The displayed issue is the one that the user should see. -/
def UpToDate (s : Session σ) : Prop := Chooses s.store s.editor s.renderer.displayed

/-- The status bar is as it is right after bringing it up to date. -/
structure Posted (s : Session σ) : Prop where
  upToDate : s.UpToDate
  status : s.editor.status = s.renderer.displayed.map fun shown => shown.2.statusText

theorem posted_updateStatus (s : Session σ) : s.updateStatus.Posted := ⟨chooses_iff.mpr rfl, rfl⟩

theorem posted_render (s : Session σ) (doc : DocumentId) : (s.render doc).Posted := by
  rw [render_eq]
  exact posted_updateStatus _

/-- What the user should see depends on the diagnostics, the focus and the cursors. -/
theorem Posted.aside {s t : Session σ} (hs : s.Posted) (h : Aside s t)
    (huntouched : s.editor.Untouched t.editor) : t.Posted where
  upToDate := by
    rw [UpToDate, chooses_iff, h.renderer, Renderer.choice, huntouched.active, huntouched.cursors,
      h.store]
    exact chooses_iff.mp hs.upToDate
  status := by
    rw [h.status, h.renderer]
    exact hs.status

theorem Posted.setPhase {s : Session σ} (hs : s.Posted) (doc : DocumentId) (p : Phase) :
    (s.setPhase doc p).Posted :=
  hs.aside (aside_setPhase s doc p) (.refl _)

theorem posted_runPass {sv : Services σ} {doc : DocumentId} {s : Session σ}
    (hskipped : (s.runPass sv doc).1.isSkipped = false) : (s.runPass sv doc).2.Posted := by
  generalize hpass : s.runPass sv doc = result at hskipped ⊢
  have hresult := runPass_result sv doc s
  rw [hpass] at hresult
  cases hresult with
  | noDocument => cases hskipped
  | unsupported => cases hskipped
  | ignored => exact (posted_updateStatus _).setPhase doc .clean
  | noConfig => cases hskipped
  | linted =>
      rw [lintDocument_eq]
      exact (posted_render _ doc).setPhase doc .annotated

/-- A skipped pass leaves the status bar and all that it depends on alone. -/
theorem aside_runPass {sv : Services σ} {doc : DocumentId} {s : Session σ}
    (hskipped : (s.runPass sv doc).1.isSkipped = true) : Aside s (s.runPass sv doc).2 := by
  generalize hpass : s.runPass sv doc = result at hskipped ⊢
  have hresult := runPass_result sv doc s
  rw [hpass] at hresult
  cases hresult with
  | noDocument => exact .refl s
  | unsupported => exact .refl s
  | ignored => cases hskipped
  | @noConfig d => exact aside_lookUp sv d s
  | linted => cases hskipped

theorem Posted.runPass {s : Session σ} (hs : s.Posted) (sv : Services σ) (doc : DocumentId) :
    (s.runPass sv doc).2.Posted := by
  cases hskipped : (s.runPass sv doc).1.isSkipped with
  | false => exact posted_runPass hskipped
  | true => exact hs.aside (aside_runPass hskipped) (confined_runPass sv doc s).undisturbed.editor

theorem upToDate_runPass {sv : Services σ} {doc : DocumentId} {s : Session σ}
    (hskipped : (s.runPass sv doc).1.isSkipped = false) : (s.runPass sv doc).2.UpToDate :=
  (posted_runPass hskipped).upToDate

theorem upToDate_activated (sv : Services σ) (doc : DocumentId) (s : Session σ) :
    (s.activated sv doc).2.UpToDate := by
  rw [activated_eq]
  dsimp only
  split
  · exact (posted_updateStatus _).upToDate
  · next hskipped => exact upToDate_runPass (eq_false_of_ne_true hskipped)

theorem upToDate_closed (doc : DocumentId) (s : Session σ) : (s.closed doc).UpToDate :=
  ((posted_updateStatus _).aside (.of_eq rfl rfl rfl rfl) ⟨rfl, rfl⟩).upToDate

theorem upToDate_goToNext {s : Session σ} {p : Position} (hmoved : s.goToNext.1 = some p) :
    s.goToNext.2.UpToDate := by
  rcases s.goToNext_cases with h | ⟨doc, q, h⟩
  · rw [h] at hmoved
    cases hmoved
  · rw [h]
    exact (posted_updateStatus _).upToDate

/-! ### Ticks -/

/-- One pass that is not skipped is enough, whatever comes before and after it. -/
theorem posted_passAll (sv : Services σ) {docs : List DocumentId} {s : Session σ}
    (hpassed : s.Posted ∨ ∃ p ∈ (passAll sv docs s).1, p.2.isSkipped = false) :
    (passAll sv docs s).2.Posted := by
  induction docs generalizing s with
  | nil =>
      rcases hpassed with hs | ⟨p, hp, -⟩
      · exact hs
      · cases hp
  | cons doc rest ih =>
      refine ih (s := (s.runPass sv doc).2) ?_
      rcases hpassed with hs | ⟨p, hp, hskipped⟩
      · exact .inl (hs.runPass sv doc)
      · rcases List.mem_cons.mp hp with rfl | hp
        · exact .inl (posted_runPass hskipped)
        · exact .inr ⟨p, hp, hskipped⟩

theorem aside_passAll (sv : Services σ) {docs : List DocumentId} {s : Session σ}
    (hskipped : ∀ p ∈ (passAll sv docs s).1, p.2.isSkipped = true) : Aside s (passAll sv docs s).2 := by
  induction docs generalizing s with
  | nil => exact .refl s
  | cons doc rest ih =>
      exact (aside_runPass (hskipped _ List.mem_cons_self)).trans
        (ih fun p hp => hskipped p (List.mem_cons_of_mem _ hp))

theorem exists_not_skipped_of_lintedIn {passes : List (DocumentId × Outcome)}
    (hlinted : lintedIn passes ≠ []) : ∃ p ∈ passes, p.2.isSkipped = false := by
  obtain ⟨doc, hdoc⟩ := List.exists_mem_of_ne_nil _ hlinted
  obtain ⟨⟨d, outcome⟩, hp, -⟩ := List.mem_map.mp hdoc
  obtain ⟨hmem, hislinted⟩ := List.mem_filter.mp hp
  refine ⟨(d, outcome), hmem, ?_⟩
  cases outcome with
  | linted rows => rfl
  | skipped reason => cases hislinted
  | ignored => rfl

theorem posted_drawDue {now : Nat} {linted : List DocumentId} {s : Session σ}
    (hdrawn : s.Posted ∨ (s.drawDue now linted).1 ≠ []) : (s.drawDue now linted).2.Posted := by
  simp only [drawDue] at hdrawn ⊢
  generalize (s.renderDelay.takeDue now).1.filter (fun doc => !linted.contains doc) = docs at hdrawn ⊢
  cases docs with
  | nil => exact (hdrawn.resolve_right fun h => h rfl).aside (aside_delays s _ _ _) (.refl _)
  | cons doc rest =>
      exact List.foldlRecOn rest _ (posted_render _ doc) fun t _ d _ => posted_render t d

theorem posted_refreshDue {now : Nat} {s : Session σ}
    (hrefreshed : s.Posted ∨ (s.statusDelay.takeDue now).1 ≠ []) : (s.refreshDue now).2.Posted := by
  simp only [refreshDue]
  split
  · next hnone =>
      have hs := hrefreshed.resolve_right (not_not.mpr (List.isEmpty_iff.mp hnone))
      exact hs.aside (aside_delays s _ _ _) (.refl _)
  · exact posted_updateStatus _

/-- The status bar is brought up to date by a tick: a document is passed over and not skipped, or drawing
or the status bar itself is due. -/
def Stirs (sv : Services σ) (now : Nat) (s : Session σ) : Prop :=
  (∃ p ∈ (Act.ticked now).passes sv s, p.2.isSkipped = false) ∨
    (s.renderDelay.takeDue now).1 ≠ [] ∨ (s.statusDelay.takeDue now).1 ≠ []

theorem posted_tick {sv : Services σ} {now : Nat} {s : Session σ} (hstirs : s.Stirs sv now) :
    (s.tick sv now).2.Posted := by
  have hrender := (confined_passAll sv (s.lintDelay.takeDue now).1
    { s with lintDelay := (s.lintDelay.takeDue now).2 }).renderDelay
  have hstatus := (confined_passAll sv (s.lintDelay.takeDue now).1
    { s with lintDelay := (s.lintDelay.takeDue now).2 }).statusDelay
  simp only [Stirs, Act.passes] at hstirs
  simp only [tick, finishTick]
  generalize hpassed : passAll sv (s.lintDelay.takeDue now).1
    { s with lintDelay := (s.lintDelay.takeDue now).2 } = passed at hrender hstatus hstirs ⊢
  dsimp only at hrender hstatus
  -- Whichever part of the tick did something brought the status bar up to date; later parts keep it so.
  have hlinted : (∃ p ∈ passed.1, p.2.isSkipped = false) → passed.2.Posted := by
    rw [← hpassed]
    exact fun hp => posted_passAll sv (.inr hp)
  apply posted_refreshDue
  rcases hstirs with hp | hdue | hdue
  · exact .inl (posted_drawDue (.inl (hlinted hp)))
  · refine .inl (posted_drawDue ?_)
    by_cases hnone : (passed.2.drawDue now (lintedIn passed.1)).1 = []
    · -- All that was to be drawn was just linted.
      obtain ⟨doc, hdoc⟩ := List.exists_mem_of_ne_nil _ hdue
      rw [drawDue, hrender, List.filter_eq_nil_iff] at hnone
      have hin := hnone doc hdoc
      exact .inl (hlinted (exists_not_skipped_of_lintedIn fun hempty => by simp [hempty] at hin))
    · exact .inr hnone
  · rw [(confined_drawDue now _ passed.2).statusDelay, hstatus]
    exact .inr hdue

theorem aside_tick {sv : Services σ} {now : Nat} {s : Session σ} (hquiet : ¬ s.Stirs sv now) :
    Aside s (s.tick sv now).2 := by
  have hrender := (confined_passAll sv (s.lintDelay.takeDue now).1
    { s with lintDelay := (s.lintDelay.takeDue now).2 }).renderDelay
  have hstatus := (confined_passAll sv (s.lintDelay.takeDue now).1
    { s with lintDelay := (s.lintDelay.takeDue now).2 }).statusDelay
  simp only [Stirs, Act.passes, not_or, not_exists, not_and, Bool.not_eq_false, not_not] at hquiet
  obtain ⟨hskipped, hundrawn, hidle⟩ := hquiet
  have hpassed := (aside_delays s (s.lintDelay.takeDue now).2 s.renderDelay s.statusDelay).trans
    (aside_passAll sv hskipped)
  simp only [tick, finishTick, drawDue, refreshDue, hrender, hstatus, hundrawn, hidle, List.filter_nil,
    List.foldl_nil, List.isEmpty_nil, if_true]
  exact hpassed.trans (aside_delays _ _ _ _)

theorem upToDate_tick {sv : Services σ} {now : Nat} {s : Session σ}
    (hreport : (s.tick sv now).1.isEmpty = false) : (s.tick sv now).2.UpToDate := by
  refine (posted_tick ?_).upToDate
  have hrender := (confined_passAll sv (s.lintDelay.takeDue now).1
    { s with lintDelay := (s.lintDelay.takeDue now).2 }).renderDelay
  have hstatus := (confined_passAll sv (s.lintDelay.takeDue now).1
    { s with lintDelay := (s.lintDelay.takeDue now).2 }).statusDelay
  simp only [tick, finishTick, TickReport.isEmpty, Bool.and_eq_false_iff, List.isEmpty_eq_false_iff,
    Bool.not_eq_false'] at hreport
  rcases hreport with (hlinted | hrendered) | hrefreshed
  · exact .inl (exists_not_skipped_of_lintedIn hlinted)
  · refine .inr (.inl fun hnone => hrendered ?_)
    simp only [drawDue, hrender, hnone, List.filter_nil]
  · refine .inr (.inr fun hnone => ?_)
    simp only [refreshDue, (confined_drawDue now _ _).statusDelay, hstatus, hnone] at hrefreshed
    cases hrefreshed

/-! ### After every run -/

/-- After any run that began without a status text, the text in the status bar is that of the displayed
issue, which is the first of a group that is stored for its document and its row. What is displayed is
what the user should see once a document got the focus or was closed, after a pass that was not skipped,
after going to the next issue, and after a tick that did anything. -/
theorem status_bar_agrees (sv : Services σ) (manner : Manner) (services : σ) (settings : Settings)
    (acts : List (Act σ)) :
    let s := (start (.fresh manner none) services settings).run sv acts
    s.editor.status = s.renderer.displayed.map (fun shown => shown.2.statusText) ∧
    (∀ doc i, s.renderer.displayed = some (doc, i) →
      ∃ g, s.store.group? doc i.row = some g ∧ g.first = i) ∧
    (∀ doc, (s.activated sv doc).2.UpToDate) ∧
    (∀ doc, (s.closed doc).UpToDate) ∧
    (∀ doc, (s.runPass sv doc).1.isSkipped = false → (s.runPass sv doc).2.UpToDate) ∧
    (∀ p, s.goToNext.1 = some p → s.goToNext.2.UpToDate) ∧
    ∀ now, (s.tick sv now).1.isEmpty = false → (s.tick sv now).2.UpToDate := by
  intro s
  have hs : s.Agrees := (run_moves sv _ acts).keep (fun _ _ hmove h => h.move hmove)
    (agrees_start manner services settings)
  refine ⟨hs.status, hs.stored, ?_, ?_, ?_, ?_, ?_⟩
  · exact fun doc => upToDate_activated sv doc s
  · exact fun doc => upToDate_closed doc s
  · exact fun doc => upToDate_runPass
  · exact fun p => upToDate_goToNext
  · exact fun now => upToDate_tick

end Session

end LintMargin
