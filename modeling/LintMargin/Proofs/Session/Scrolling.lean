import LintMargin.Proofs.Session.Acts
import LintMargin.Proofs.Session.Relint

/-!
# Looking around

Scrolling has a document drawn again and moving a cursor has the status text set again. While nothing waits
to be linted this shows nothing new: the anchors of a consistent session are those that its diagnostics ask
for, so drawing finds nothing to do but to replace tooltips by others that look the same.
-/

namespace LintMargin

universe u

variable {σ : Type u}

/-- Requests that replace tooltips or set the status text. -/
def Call.isRepaint : Call → Bool
  | .showTooltip .. | .releaseTooltip _ | .setStatus _ => true
  | _ => false

/-- Acts of a user who only looks around, with the ticks meanwhile. -/
def Act.LooksAround : Act σ → Prop
  | .scrolled .. | .cursorMoved .. | .ticked _ | .arranged _ => True
  | _ => False

namespace Session

variable {s t r : Session σ}

/-- Diagnostics, phases and anchors are as before, and nothing was asked for but other tooltips and status
texts. -/
structure Still (s t : Session σ) : Prop where
  store : t.store = s.store
  phases : t.phases = s.phases
  anchors : ∀ doc, t.anchors.ofDocument doc = s.anchors.ofDocument doc
  markers : t.editor.markers = s.editor.markers
  asked : s.editor.Asked (fun c => c.isRepaint = true) t.editor

theorem Still.refl (s : Session σ) : Still s s := ⟨rfl, rfl, fun _ => rfl, rfl, .refl _⟩

theorem Still.trans (h : Still s t) (h' : Still t r) : Still s r where
  store := h'.store.trans h.store
  phases := h'.phases.trans h.phases
  anchors doc := (h'.anchors doc).trans (h.anchors doc)
  markers := h'.markers.trans h.markers
  asked := h.asked.trans h'.asked

theorem still_delays (s : Session σ) (lint render : Debouncer DocumentId) (status : Debouncer Unit) :
    Still s { s with lintDelay := lint, renderDelay := render, statusDelay := status } :=
  ⟨rfl, rfl, fun _ => rfl, rfl, .refl _⟩

theorem still_updateStatus (s : Session σ) : Still s s.updateStatus :=
  ⟨rfl, rfl, fun _ => rfl, rfl, .one rfl rfl⟩

/-! ### Drawing what is drawn already -/

theorem Consistent.stale_eq_nil (hs : s.Consistent) (doc : DocumentId) :
    s.anchors.stale doc (s.store.rows doc) = [] := by
  rw [List.eq_nil_iff_forall_not_mem]
  intro h hin
  obtain ⟨row, hrow, hanchor⟩ := Anchors.mem_stale_iff.mp hin
  exact hrow (((hs.shows doc).rows row).mp (Option.isSome_of_eq_some hanchor))

theorem Consistent.still_draw (hs : s.Consistent) (doc : DocumentId) : Still s (s.draw doc) := by
  obtain ⟨made, hredrawn⟩ := Renderer.exists_redrawn hs.held s.store doc
  have hbooks : ∀ d row, (s.draw doc).anchors.anchor? d row = s.anchors.anchor? d row := by
    intro d row
    by_cases hd : d = doc
    · subst hd
      have hbefore := (hs.shows d).rows row
      have hafter := hredrawn.rows row
      cases hanchor : s.anchors.anchor? d row with
      | some h =>
          rw [hanchor] at hbefore
          exact hredrawn.kept row h (hbefore.mp rfl) hanchor
      | none =>
          rw [hanchor] at hbefore
          rw [← Option.not_isSome_iff_eq_none]
          exact fun hsome => Bool.false_ne_true (hbefore.mpr (hafter.mp hsome))
    · exact hredrawn.anchors_ne d row hd
  constructor
  case store => rfl
  case phases => rfl
  case anchors => exact fun d => SortedMap.ext (hbooks d)
  case markers => exact hs.held.markers_eq hredrawn.held hbooks
  case asked =>
      refine ⟨_, hredrawn.journal, fun c hc => ?_⟩
      rw [hs.stale_eq_nil, List.map_nil, List.nil_append, List.mem_append] at hc
      rcases hc with hc | hc
      · obtain ⟨h, -, rfl⟩ := List.mem_map.mp hc
        rfl
      · obtain ⟨x, hx, hc⟩ := List.mem_flatMap.mp hc
        -- A row with a group has its anchor already.
        have hrow : x.1.1 ∈ s.store.rows doc := List.mem_map_of_mem (List.of_mem_zip hx).1
        obtain ⟨h, hanchor⟩ := Option.isSome_iff_exists.mp (((hs.shows doc).rows x.1.1).mpr hrow)
        have hnone : ∀ b, s.anchors.markings b doc x.1.1 = [] := by
          intro b
          simp only [Anchors.markings, hanchor]
        rw [hnone, List.nil_append, List.mem_singleton] at hc
        rw [hc]
        rfl

theorem Consistent.still_render (hs : s.Consistent) (doc : DocumentId) : Still s (s.render doc) := by
  rw [render_eq]
  exact (hs.still_draw doc).trans (still_updateStatus _)

/-! ### Ticks -/

theorem Consistent.still_drawDue (hs : s.Consistent) (now : Nat) (linted : List DocumentId) :
    Still s (s.drawDue now linted).2 := by
  have hdrawn := List.foldlRecOn (motive := fun k : Session σ => k.Consistent ∧ Still s k)
    ((s.renderDelay.takeDue now).1.filter fun doc => !linted.contains doc)
    (fun k doc => k.render doc) (b := { s with renderDelay := (s.renderDelay.takeDue now).2 })
    ⟨hs.congr rfl rfl rfl rfl rfl rfl (Nat.le_refl _), still_delays s s.lintDelay _ s.statusDelay⟩
    fun k hk doc _ => ⟨hk.1.move (.render k doc), hk.2.trans (hk.1.still_render doc)⟩
  exact hdrawn.2

theorem still_refreshDue (now : Nat) (s : Session σ) : Still s (s.refreshDue now).2 := by
  have htaken := still_delays s s.lintDelay s.renderDelay (s.statusDelay.takeDue now).2
  simp only [refreshDue]
  split
  · exact htaken
  · exact htaken.trans (still_updateStatus _)

/-- A tick with nothing to lint goes on to draw at once. -/
theorem tick_of_no_lint {now : Nat} (hnone : (s.lintDelay.takeDue now).1 = []) (sv : Services σ) :
    s.tick sv now =
      finishTick now ([], { s with lintDelay := (s.lintDelay.takeDue now).2 }) := by
  simp only [tick, hnone, passAll]

theorem Consistent.still_tick (hs : s.Consistent) {now : Nat}
    (hnone : (s.lintDelay.takeDue now).1 = []) (sv : Services σ) : Still s (s.tick sv now).2 := by
  have htaken : Consistent { s with lintDelay := (s.lintDelay.takeDue now).2 } :=
    hs.congr rfl rfl rfl rfl rfl rfl (Nat.le_refl _)
  rw [tick_of_no_lint hnone]
  exact (still_delays s _ s.renderDelay s.statusDelay).trans
    ((htaken.still_drawDue now _).trans (still_refreshDue now _))

/-- A tick with no other work than the status bar sets its text. -/
theorem tick_of_status_only {now : Nat} (hlint : (s.lintDelay.takeDue now).1 = [])
    (hrender : (s.renderDelay.takeDue now).1 = []) (hstatus : (s.statusDelay.takeDue now).1 ≠ [])
    (sv : Services σ) :
    (s.tick sv now).2 = { s with
      lintDelay := (s.lintDelay.takeDue now).2
      renderDelay := (s.renderDelay.takeDue now).2
      statusDelay := (s.statusDelay.takeDue now).2 }.updateStatus := by
  rw [tick_of_no_lint hlint]
  simp only [finishTick, drawDue, refreshDue, hrender, List.filter_nil, List.foldl_nil,
    List.isEmpty_eq_false_iff.mpr hstatus, Bool.false_eq_true, if_false]

/-! ### Runs -/

/-- Looking around makes no passes, changes nothing of note and has no document wait to be linted. -/
theorem Consistent.still_act (hs : s.Consistent) (hnone : ∀ doc, s.lintDelay.deadline? doc = none)
    (sv : Services σ) {a : Act σ} (ha : a.LooksAround) :
    Still s (s.act sv a) ∧ a.passes sv s = [] ∧ ∀ doc, (s.act sv a).lintDelay.deadline? doc = none := by
  cases a with
  | scrolled doc now => exact ⟨still_delays s s.lintDelay _ s.statusDelay, rfl, hnone⟩
  | cursorMoved doc now => exact ⟨still_delays s s.lintDelay s.renderDelay _, rfl, hnone⟩
  | arranged desk =>
      have hjournal : (s.editor.arrange desk).journal = s.editor.journal ++ [] := (List.append_nil _).symm
      exact ⟨⟨rfl, rfl, fun _ => rfl, rfl, [], hjournal, fun _ hc => nomatch hc⟩, rfl, hnone⟩
  | ticked now =>
      have hlint : (s.lintDelay.takeDue now).1 = [] :=
        Debouncer.takeDue_eq_nil_iff.mpr fun doc t ht => by simp [hnone] at ht
      refine ⟨hs.still_tick hlint sv, ?_, fun doc => ?_⟩
      · rw [Act.passes, hlint, passAll]
      · ext t
        simp only [act, (onSchedule_tick sv now s).lintDelay, Debouncer.deadline?_takeDue, hnone,
          reduceCtorEq, false_and]
  | _ => exact ha.elim

theorem Reachable.still_run {sv : Services σ} (hs : Reachable sv s)
    (hnone : ∀ doc, s.lintDelay.deadline? doc = none) {acts : List (Act σ)}
    (hacts : ∀ a ∈ acts, a.LooksAround) :
    Still s (s.run sv acts) ∧ passes sv s acts = [] ∧ Reachable sv (s.run sv acts) := by
  induction acts generalizing s with
  | nil => exact ⟨.refl s, rfl, hs⟩
  | cons a rest ih =>
      obtain ⟨hstill, hpasses, hlater⟩ :=
        hs.consistent.still_act hnone sv (hacts a List.mem_cons_self)
      obtain ⟨hrest, hquiet, hreachable⟩ :=
        ih (hs.act a) hlater fun b hb => hacts b (List.mem_cons_of_mem a hb)
      exact ⟨hstill.trans hrest, by rw [passes, hpasses, hquiet]; rfl, hreachable⟩

/-- The tooltips of a document look the same in consistent sessions with the same diagnostics. -/
theorem Consistent.tooltips_perm (hs : s.Consistent) (ht : t.Consistent) (hstore : t.store = s.store)
    (doc : DocumentId) :
    ((t.editor.liveTooltips doc).map Prod.snd).Perm ((s.editor.liveTooltips doc).map Prod.snd) := by
  have hafter := ht.tooltip_texts_perm doc
  rw [hstore] at hafter
  exact hafter.trans (hs.tooltip_texts_perm doc).symm

/-! ### From every state -/

/-- If nothing waits to be linted, then after any number of acts of a user who only looks around, in
whichever documents, nothing was linted, diagnostics, phases and anchors are as before, nothing was asked
for but other tooltips and status texts, and every document has tooltips with the same texts on the same
rows. A tick for which nothing but the status bar is due changes nothing but its text. -/
theorem looking_around_keeps_still {sv : Services σ} {s : Session σ} (hs : Reachable sv s) :
    ((∀ doc, s.lintDelay.deadline? doc = none) →
      ∀ acts : List (Act σ), (∀ a ∈ acts, a.LooksAround) →
        let t := s.run sv acts
        passes sv s acts = [] ∧ Still s t ∧
        ∀ doc, ((t.editor.liveTooltips doc).map Prod.snd).Perm
          ((s.editor.liveTooltips doc).map Prod.snd)) ∧
    ∀ now, (∀ doc t, s.lintDelay.deadline? doc = some t → now < t) →
      (∀ doc t, s.renderDelay.deadline? doc = some t → now < t) →
      (∃ t, s.statusDelay.deadline? () = some t ∧ t ≤ now) →
      Beside s (s.tick sv now).2 ∧ ∃ text, (s.tick sv now).2.editor = s.editor.setStatus text := by
  constructor
  · intro hnone acts hacts t
    obtain ⟨hstill, hpasses, hlater⟩ := hs.still_run hnone hacts
    exact ⟨hpasses, hstill, hs.consistent.tooltips_perm hlater.consistent hstill.store⟩
  · intro now hlint hrender hstatus
    have hdue : (s.statusDelay.takeDue now).1 ≠ [] :=
      List.ne_nil_of_mem (Debouncer.mem_takeDue_iff.mpr hstatus)
    rw [tick_of_status_only (Debouncer.takeDue_eq_nil_iff.mpr hlint)
      (Debouncer.takeDue_eq_nil_iff.mpr hrender) hdue]
    exact ⟨(beside_delays s _ _ _).trans (beside_updateStatus _), _, rfl⟩

/-- The document with issues is drawn again while another one is scrolled that the session never heard of.
The tooltips are others then, but one cannot tell. -/
theorem looking_around_keeps_still_shifting :
    let s := shifting.act .reporting (.cursorMoved ⟨7⟩ 0)
    let acts : List (Act Report) :=
      [.scrolled ⟨7⟩ 50, .scrolled ⟨9⟩ 50, .arranged ⟨∅, none, ∅⟩, .ticked 1000]
    let t := s.run .reporting acts
    Reachable .reporting s ∧ (∀ a ∈ acts, a.LooksAround) ∧
    (t.editor.liveTooltips ⟨7⟩).map Prod.fst ≠ (s.editor.liveTooltips ⟨7⟩).map Prod.fst ∧
    ((t.editor.liveTooltips ⟨7⟩).map Prod.snd).Perm ((s.editor.liveTooltips ⟨7⟩).map Prod.snd) ∧
    Still s t ∧ ∃ text, (s.tick .reporting 100).2.editor = s.editor.setStatus text := by
  intro s acts t
  have hs : Reachable .reporting s :=
    Reachable.act (s := shifting) ⟨.plain, none, [], {}, _, rfl⟩ (.cursorMoved ⟨7⟩ 0)
  have hlint : ∀ doc, s.lintDelay.deadline? doc = none := fun doc => Debouncer.deadline?_ofDelay 50 doc
  have hrender : ∀ doc, s.renderDelay.deadline? doc = none := fun doc => Debouncer.deadline?_ofDelay 200 doc
  have hstatus : s.statusDelay.deadline? () = some 100 := by decide
  have hacts : ∀ a ∈ acts, a.LooksAround := by simp [acts, Act.LooksAround]
  obtain ⟨hstill, htick⟩ := looking_around_keeps_still hs
  obtain ⟨-, hkept, hperm⟩ := hstill hlint acts hacts
  refine ⟨hs, hacts, by decide, hperm ⟨7⟩, hkept, (htick 100 ?_ ?_ ⟨100, hstatus, Nat.le_refl _⟩).2⟩
  · intro doc t ht
    simp [hlint] at ht
  · intro doc t ht
    simp [hrender] at ht

end Session

end LintMargin
