import LintMargin.Proofs.Session.Scrolling
import LintMargin.Proofs.Session.StatusBar
import LintMargin.Proofs.Session.Verdict
import LintMargin.Proofs.Session.Wiring

/-!
# Late ticks

A tick that comes late does all the work that an earlier one would have left to it or done before it. With
services that answer the same to the same questions, it makes no difference for what is held and seen in
the end whether there was an earlier tick, apart from the names of things that were made meanwhile.
-/

namespace LintMargin

universe u

variable {σ : Type u}

namespace Session

variable {sv : Services σ} {Good : σ → Prop} {s t r : Session σ} {docs : List DocumentId}
  {now early late : Nat}

/-! ### What a tick comes to -/

/-- Drawing what is drawn already does not matter. -/
theorem PassedOver.still (h : PassedOver sv docs s t) (hstill : Still t r) : PassedOver sv docs s r where
  store d := by rw [hstill.store, h.store]
  phases d := by rw [hstill.phases, h.phases]
  consulted := by
    have hquiet : Editor.Consulted [] t.editor r.editor := hstill.asked.consulted fun c hc => by
      cases c <;> first | rfl | cases hc
    simpa using h.consulted.trans hquiet
  retained d row g hanchor hrow := by
    rw [hstill.store] at hrow
    rw [Anchors.anchor?, hstill.anchors]
    exact h.retained d row g hanchor hrow

theorem tick_passedOver (hsv : sv.Functional Good) (hs : s.Consistent) (hgood : Good s.services)
    (now : Nat) : PassedOver sv (s.lintDelay.takeDue now).1 s (s.tick sv now).2 := by
  have htaken : Still s { s with lintDelay := (s.lintDelay.takeDue now).2 } :=
    still_delays s _ s.renderDelay s.statusDelay
  have hconsistent : Consistent { s with lintDelay := (s.lintDelay.takeDue now).2 } :=
    hs.congr rfl rfl rfl rfl rfl rfl (Nat.le_refl _)
  have hpassed := ((PassedOver.nil sv s).still htaken).trans
    (passAll_passedOver hsv hconsistent hgood (s.lintDelay.nodup_takeDue now)) hs
    (List.disjoint_nil_left _) (hsv.verdict_eq hgood hgood ⟨⟨rfl, rfl⟩, rfl⟩)
  have hdrawn := ((passAll_moves sv (s.lintDelay.takeDue now).1 _).consistent hconsistent).still_drawDue
    now (lintedIn ((Act.ticked now).passes sv s))
  exact hpassed.still (hdrawn.trans (still_refreshDue now _))

theorem stirs_iff (hsv : sv.Functional Good) (hgood : Good s.services) :
    s.Stirs sv now ↔
      (∃ d ∈ (s.lintDelay.takeDue now).1, (s.verdict sv d).outcome.isSkipped = false) ∨
        (s.renderDelay.takeDue now).1 ≠ [] ∨ (s.statusDelay.takeDue now).1 ≠ [] := by
  have hverdict : ∀ d, ({ s with lintDelay := (s.lintDelay.takeDue now).2 } : Session σ).verdict sv d =
      s.verdict sv d := hsv.verdict_eq hgood hgood ⟨⟨rfl, rfl⟩, rfl⟩
  have hpasses : (Act.ticked now).passes sv s =
      (s.lintDelay.takeDue now).1.map fun d => (d, (s.verdict sv d).outcome) := by
    simp only [← hverdict]
    exact outcomes_passAll (s := { s with lintDelay := (s.lintDelay.takeDue now).2 }) hsv hgood _
  rw [Stirs, hpasses]
  simp only [List.mem_map, exists_exists_and_eq_and]

/-! ### One tick after the other -/

theorem twice_passedOver (hsv : sv.Functional Good) (hs : s.Consistent) (hgood : Good s.services)
    (early late : Nat) :
    PassedOver sv ((s.lintDelay.takeDue early).1 ++ ((s.lintDelay.takeDue early).2.takeDue late).1) s
      ((s.tick sv early).2.tick sv late).2 := by
  have hlater := hsv.good_tick hgood early
  have hsecond := tick_passedOver hsv ((tick_moves sv early s).consistent hs) hlater late
  rw [(confined_tick sv early s).lintDelay] at hsecond
  exact (tick_passedOver hsv hs hgood early).trans hsecond hs (s.lintDelay.disjoint_takeDue early late)
    (hsv.verdict_eq hgood hlater (undisturbed_tick sv early s))

theorem stirs_twice_iff (hsv : sv.Functional Good) (hgood : Good s.services) (hle : early ≤ late) :
    s.Stirs sv late ↔ s.Stirs sv early ∨ (s.tick sv early).2.Stirs sv late := by
  have hlater := hsv.good_tick hgood early
  have hverdict := hsv.verdict_eq hgood hlater (undisturbed_tick sv early s)
  rw [stirs_iff hsv hgood, stirs_iff hsv hgood, stirs_iff hsv hlater, (confined_tick sv early s).lintDelay,
    (confined_tick sv early s).renderDelay, (confined_tick sv early s).statusDelay,
    s.renderDelay.takeDue_ne_nil_iff hle, s.statusDelay.takeDue_ne_nil_iff hle]
  simp only [hverdict, s.lintDelay.mem_takeDue_takeDue_iff hle, or_and_right, exists_or]
  exact (or_congr_right or_or_or_comm).trans or_or_or_comm

/-- Status bars that were brought up to date agree if diagnostics, focus and cursors do. -/
theorem Posted.eq (hs : s.Posted) (ht : t.Posted) (hstore : t.store = s.store)
    (hdesk : t.editor.desk = s.editor.desk) :
    t.renderer.displayed = s.renderer.displayed ∧ t.editor.status = s.editor.status := by
  have hdisplayed : t.renderer.displayed = s.renderer.displayed := by
    rw [← chooses_iff.mp hs.upToDate, ← chooses_iff.mp ht.upToDate, hstore, Renderer.choice,
      Renderer.choice, show t.editor.active = s.editor.active from congrArg Desk.active hdesk,
      show t.editor.cursors = s.editor.cursors from congrArg Desk.cursors hdesk]
  exact ⟨hdisplayed, by rw [ht.status, hs.status, hdisplayed]⟩

/-- The status bar after both ticks is that after the later one alone. -/
theorem status_twice_eq (hsv : sv.Functional Good) (hgood : Good s.services) (hle : early ≤ late)
    (hstore : ((s.tick sv early).2.tick sv late).2.store = (s.tick sv late).2.store) :
    ((s.tick sv early).2.tick sv late).2.renderer.displayed = (s.tick sv late).2.renderer.displayed ∧
      ((s.tick sv early).2.tick sv late).2.editor.status = (s.tick sv late).2.editor.status := by
  have hfirst := undisturbed_tick sv early s
  have hsecond := undisturbed_tick sv late (s.tick sv early).2
  have honce := undisturbed_tick sv late s
  by_cases hstirs : s.Stirs sv late
  · have hposted : ((s.tick sv early).2.tick sv late).2.Posted := by
      by_cases hagain : (s.tick sv early).2.Stirs sv late
      · exact posted_tick hagain
      · -- All that was to be done was done before, and nothing has changed since.
        have hbefore := ((stirs_twice_iff hsv hgood hle).mp hstirs).resolve_right hagain
        exact (posted_tick hbefore).aside (aside_tick hagain) hsecond.editor
    exact (posted_tick hstirs).eq hposted hstore
      (honce.editor.symm.trans (hfirst.trans hsecond).editor).desk
  · have hquiet := not_or.mp (mt (stirs_twice_iff hsv hgood hle).mpr hstirs)
    have htwice := (aside_tick hquiet.1).trans (aside_tick hquiet.2)
    have halone := aside_tick hstirs
    exact ⟨by rw [htwice.renderer, halone.renderer], by rw [htwice.status, halone.status]⟩

/-- What is to be seen after passing over the same documents in another order is the same, and anchors that
were there before and are still wanted are there under their names. -/
theorem PassedOver.alike {docs more : List DocumentId} (h : PassedOver sv docs s t)
    (h' : PassedOver sv more s r) (hperm : docs.Perm more) (ht : t.Consistent) (hr : r.Consistent)
    (doc : DocumentId) :
    r.anchors.rows doc = t.anchors.rows doc ∧
      (∀ row, r.editor.seenOn doc row = t.editor.seenOn doc row) ∧
      ∀ row g, s.anchors.anchor? doc row = some g → row ∈ t.anchors.rows doc →
        r.anchors.anchor? doc row = some g ∧ t.anchors.anchor? doc row = some g := by
  obtain ⟨hstore, -⟩ := h.agree h' hperm
  refine ⟨?_, fun row => ?_, fun row g hanchor hrow => ?_⟩
  · rw [hr.rows_eq, ht.rows_eq, hstore]
  · rw [hr.seenOn_eq, ht.seenOn_eq, hstore]
  · rw [ht.rows_eq] at hrow
    exact ⟨h'.retained doc row g hanchor (hstore ▸ hrow), h.retained doc row g hanchor hrow⟩

/-! ### From every state -/

/-- If the services answer the same to the same questions, then it makes no difference whether an earlier
tick came before a later one: diagnostics, phases, deadlines, the status bar, and listeners are the same in
the end, and so are the rows with anchors and all that is to be seen on each row. An anchor that was there
before and is still wanted is there under its name in both cases, and the linters are asked for the same,
if not in the same order. -/
theorem late_ticks_lose_nothing (hsv : sv.Functional Good) (hs : Reachable sv s)
    (hgood : Good s.services) (hle : early ≤ late) :
    let twice := ((s.tick sv early).2.tick sv late).2
    let once := (s.tick sv late).2
    (twice.store = once.store ∧ twice.phases = once.phases) ∧
    (twice.lintDelay = once.lintDelay ∧ twice.renderDelay = once.renderDelay ∧
      twice.statusDelay = once.statusDelay) ∧
    (twice.renderer.displayed = once.renderer.displayed ∧ twice.editor.status = once.editor.status) ∧
    (Attentive once twice ∧ once.editor.Untouched twice.editor) ∧
    (∀ doc, twice.anchors.rows doc = once.anchors.rows doc ∧
      (∀ row, twice.editor.seenOn doc row = once.editor.seenOn doc row) ∧
      ∀ row h, s.anchors.anchor? doc row = some h → row ∈ once.anchors.rows doc →
        twice.anchors.anchor? doc row = some h ∧ once.anchors.anchor? doc row = some h) ∧
    ∃ asked again, Editor.Consulted asked s.editor once.editor ∧
      Editor.Consulted again s.editor twice.editor ∧ again.Perm asked := by
  dsimp only
  have hperm := s.lintDelay.takeDue_perm hle
  have hfirst := (tick_moves sv early s).consistent hs.consistent
  have hpassedTwice := twice_passedOver hsv hs.consistent hgood early late
  have hpassedOnce := tick_passedOver hsv hs.consistent hgood late
  have hagree := hpassedOnce.agree hpassedTwice hperm
  refine ⟨hagree, ⟨?_, ?_, ?_⟩, status_twice_eq hsv hgood hle hagree.1, ⟨?_, ?_⟩,
    hpassedOnce.alike hpassedTwice hperm ((tick_moves sv late s).consistent hs.consistent)
      ((tick_moves sv late _).consistent hfirst),
    _, _, hpassedOnce.consulted, hpassedTwice.consulted, (hperm.flatMap_right _).symm⟩
  · rw [(confined_tick sv late _).lintDelay, (confined_tick sv early s).lintDelay,
      (confined_tick sv late s).lintDelay, s.lintDelay.takeDue_takeDue hle]
  · rw [(confined_tick sv late _).renderDelay, (confined_tick sv early s).renderDelay,
      (confined_tick sv late s).renderDelay, s.renderDelay.takeDue_takeDue hle]
  · rw [(confined_tick sv late _).statusDelay, (confined_tick sv early s).statusDelay,
      (confined_tick sv late s).statusDelay, s.statusDelay.takeDue_takeDue hle]
  · exact (attentive_tick sv late s).symm.trans
      ((attentive_tick sv early s).trans (attentive_tick sv late _))
  · exact (undisturbed_tick sv late s).editor.symm.trans
      ((undisturbed_tick sv early s).trans (undisturbed_tick sv late _)).editor

/-- Two documents wait to be linted for the first time, the second one not as long as the first. -/
def waiting : Session Report :=
  (start .empty [] {}).run .reporting
    [.arranged ⟨(SortedMap.insert ∅ ⟨7⟩ ⟨"a", none, "source.js"⟩).insert ⟨8⟩ ⟨"b", none, "source.js"⟩,
        some ⟨7⟩, ∅⟩,
      .served [some ⟨1, 1, "first", none⟩], .saved ⟨8⟩ 0, .saved ⟨7⟩ 100]

/-- In between, only the document with the higher number is due. So the anchors get other names. -/
theorem late_ticks_lose_nothing_waiting :
    let twice := ((waiting.tick .reporting 100).2.tick .reporting 1000).2
    let once := (waiting.tick .reporting 1000).2
    Services.reporting.Functional (· = [some ⟨1, 1, "first", none⟩]) ∧ Reachable .reporting waiting ∧
    twice.anchors.anchor? ⟨7⟩ 0 ≠ once.anchors.anchor? ⟨7⟩ 0 ∧
    twice.store = once.store ∧ twice.editor.status = once.editor.status ∧
    twice.editor.seenOn ⟨7⟩ 0 = once.editor.seenOn ⟨7⟩ 0 ∧
    ∃ asked again, Editor.Consulted asked waiting.editor once.editor ∧
      Editor.Consulted again waiting.editor twice.editor ∧ again.Perm asked := by
  intro twice once
  have hreachable : Reachable .reporting waiting := ⟨.plain, none, [], {}, _, rfl⟩
  have hfunctional : Services.reporting.Functional (· = [some ⟨1, 1, "first", none⟩]) :=
    ⟨fun _ _ => rfl, fun _ _ => rfl, fun ha hb => congrArg Except.ok (ha.trans hb.symm),
      ⟨fun _ => id, fun _ => id, id⟩⟩
  obtain ⟨⟨hstore, -⟩, -, ⟨-, hstatus⟩, -, hseen, hasked⟩ :=
    late_ticks_lose_nothing hfunctional hreachable rfl (show 100 ≤ 1000 by decide)
  exact ⟨hfunctional, hreachable, by decide, hstore, hstatus, (hseen ⟨7⟩).2.1 0, hasked⟩

end Session

end LintMargin
