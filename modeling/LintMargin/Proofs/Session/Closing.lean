import LintMargin.Proofs.Session.Acts
import LintMargin.Proofs.Session.Relint

/-!
# Closing a document

Closing lets go of everything that is kept of a document. While it is not opened again, nothing that is
still to come brings any of it back: late events of the document, ticks, new settings and whatever is done
with other documents.
-/

namespace LintMargin

universe u

variable {σ : Type u}

/-- A document without diagnostics has no issue for the status bar. -/
theorem Renderer.choice_ne_some {store : Store} {doc : DocumentId} (h : store.get? doc = none)
    (e : Editor) (i : Issue) : Renderer.choice store e ≠ some (doc, i) := by
  unfold choice
  cases e.active with
  | none => simp
  | some d =>
      intro hchoice
      simp only [Option.bind_some, Option.map_eq_some_iff, Prod.mk.injEq] at hchoice
      obtain ⟨group, hgroup, rfl, -⟩ := hchoice
      have hempty : store.diagnostics d = ∅ := Store.diagnostics_of_get?_eq_none h
      rw [hempty] at hgroup
      cases hcursor : e.cursors.get? d <;> simp [hcursor, Diagnostics.firstGroup] at hgroup

/-- Cancelling what is not scheduled changes nothing. -/
theorem Debouncer.cancel_of_deadline?_eq_none {κ : Type u} [Ranked κ] [DecidableEq κ]
    {d : Debouncer κ} {key : κ} (h : d.deadline? key = none) : d.cancel key = d := by
  rw [cancel, SortedMap.erase_of_get?_eq_none h]

namespace Session

/-! ### Right after closing -/

theorem keepsNothing_closed (s : Session σ) (doc : DocumentId) : (s.closed doc).KeepsNothing doc where
  store := SortedMap.get?_erase_self s.store doc
  anchors := SortedMap.get?_erase_self s.anchors doc
  tooltips := SortedMap.get?_erase_self s.renderer.tooltips doc
  phases := SortedMap.get?_erase_self s.phases doc
  triggers := SortedMap.get?_erase_self s.triggers doc

theorem deadline?_lintDelay_closed (s : Session σ) (doc : DocumentId) :
    (s.closed doc).lintDelay.deadline? doc = none := by
  change (s.lintDelay.cancel doc).deadline? doc = none
  rw [Debouncer.deadline?_cancel, if_pos rfl]

theorem deadline?_renderDelay_closed (s : Session σ) (doc : DocumentId) :
    (s.closed doc).renderDelay.deadline? doc = none := by
  change (s.renderDelay.cancel doc).deadline? doc = none
  rw [Debouncer.deadline?_cancel, if_pos rfl]

theorem displayed_closed_ne (s : Session σ) (doc : DocumentId) (i : Issue) :
    (s.closed doc).renderer.displayed ≠ some (doc, i) :=
  Renderer.choice_ne_some (keepsNothing_closed s doc).store _ i

/-- Where nothing is left of a document, closing it only brings the status bar up to date. -/
theorem KeepsNothing.closed {s : Session σ} {doc : DocumentId} (h : s.KeepsNothing doc)
    (hlint : s.lintDelay.deadline? doc = none) (hrender : s.renderDelay.deadline? doc = none)
    (hdisplayed : ∀ i, s.renderer.displayed ≠ some (doc, i)) : s.closed doc = s.updateStatus := by
  have hshown : s.renderer.displayed.filter (fun shown => shown.1 ≠ doc) = s.renderer.displayed := by
    cases hissue : s.renderer.displayed with
    | none => rfl
    | some shown =>
        have hother : shown.1 ≠ doc := fun heq => hdisplayed shown.2 (by rw [hissue, ← heq])
        simp [Option.filter, hother]
  have hpurged : s.forgetDiagnostics doc = s := by rw [h.forgetDiagnostics, hshown]
  simp only [Session.closed, h.releaseTriggers, Debouncer.cancel_of_deadline?_eq_none hlint,
    Debouncer.cancel_of_deadline?_eq_none hrender, hpurged, SortedMap.erase_of_get?_eq_none h.phases]

/-- Closing a document again only sets the status text that is shown already. -/
theorem closed_closed (s : Session σ) (doc : DocumentId) :
    (s.closed doc).closed doc = { s.closed doc with
      editor := (s.closed doc).editor.note (.setStatus (s.closed doc).editor.status) } :=
  (keepsNothing_closed s doc).closed (deadline?_lintDelay_closed s doc)
    (deadline?_renderDelay_closed s doc) (displayed_closed_ne s doc)

/-! ### From then on -/

/-- After a document was closed, nothing is kept of it and nothing scheduled for it, the status bar is not
about it, and closing it again changes nothing. As long as it is neither open nor brought in again, this
stays so whatever happens: no pass gets further than to see that it is not open, no anchor, tooltip or
listener is made for it, and every request for a linter comes from a pass that lints another document. -/
theorem closed_for_good (sv : Services σ) (s : Session σ) (doc : DocumentId) :
    let t := s.closed doc
    (t.KeepsNothing doc ∧ t.lintDelay.deadline? doc = none ∧ t.renderDelay.deadline? doc = none ∧
      ∀ i, t.renderer.displayed ≠ some (doc, i)) ∧
    t.closed doc = { t with editor := t.editor.note (.setStatus t.editor.status) } ∧
    ∀ desk acts, desk.documents.get? doc = none → (∀ a ∈ acts, a.Within (· ≠ doc)) →
      let left := t.act sv (.arranged desk)
      let r := left.run sv acts
      r.KeepsNothing doc ∧
      (∀ outcome, (doc, outcome) ∈ passes sv left acts → outcome = .skipped .noDocument) ∧
      ∃ calls, r.editor.journal = t.editor.journal ++ calls ∧ (∀ c ∈ calls, c.doc? ≠ some doc) ∧
        calls.countP Call.isLint = (lintedIn (passes sv left acts)).length := by
  intro t
  have hkeeps : t.KeepsNothing doc := keepsNothing_closed s doc
  refine ⟨⟨hkeeps, deadline?_lintDelay_closed s doc, deadline?_renderDelay_closed s doc,
    displayed_closed_ne s doc⟩, closed_closed s doc, ?_⟩
  intro desk acts habsent hacts left r
  have hgone : left.Gone doc :=
    ⟨habsent, ⟨hkeeps.store, hkeeps.anchors, hkeeps.tooltips, hkeeps.phases, hkeeps.triggers⟩⟩
  have hsteps : Steps sv (· ≠ doc) (passes sv left acts) left r :=
    run_steps (fun d => (em (d = doc)).symm.imp_right fun (heq : d = doc) => heq ▸ hgone) hacts
  have hspared : ¬ doc ≠ doc := not_not.mpr rfl
  refine ⟨(hsteps.gone hspared hgone).keepsNothing,
    fun outcome hpass => hsteps.outcome_of_mem hspared hgone hpass, ?_⟩
  obtain ⟨calls, hjournal, hcalls⟩ := (hsteps.spares hspared).asked
  refine ⟨calls, hjournal, hcalls, ?_⟩
  have hlints := hsteps.lints
  rw [Editor.lints, hjournal, List.countP_append] at hlints
  exact Nat.add_left_cancel hlints

/-- The document is closed while its issues are shown. Late events of it come to nothing. -/
theorem closed_for_good_shifting :
    let desk : Desk := ⟨SortedMap.insert ∅ ⟨8⟩ ⟨"a", none, "source.js"⟩, some ⟨8⟩, ∅⟩
    let acts : List (Act Report) :=
      [.saved ⟨7⟩ 0, .scrolled ⟨7⟩ 0, .activated ⟨8⟩, .reconfigured {}, .ticked 5000, .closed ⟨7⟩]
    let left := (shifting.closed ⟨7⟩).act .reporting (.arranged desk)
    desk.documents.get? ⟨7⟩ = none ∧ (∀ a ∈ acts, a.Within (· ≠ ⟨7⟩)) ∧
      (⟨7⟩, .skipped .noDocument) ∈ passes .reporting left acts ∧
      (left.run .reporting acts).KeepsNothing ⟨7⟩ ∧
      ∀ outcome, (⟨7⟩, outcome) ∈ passes .reporting left acts → outcome = .skipped .noDocument := by
  intro desk acts left
  have habsent : desk.documents.get? ⟨7⟩ = none := by decide
  have hacts : ∀ a ∈ acts, a.Within (· ≠ ⟨7⟩) := by
    intro a ha
    simp only [acts, List.mem_cons, List.not_mem_nil, or_false] at ha
    rcases ha with rfl | rfl | rfl | rfl | rfl | rfl <;> simp [Act.Within]
  obtain ⟨hkeeps, houtcomes, -⟩ :=
    (closed_for_good .reporting shifting ⟨7⟩).2.2 desk acts habsent hacts
  exact ⟨habsent, hacts, by decide, hkeeps, houtcomes⟩

end Session

end LintMargin
