import LintMargin.Proofs.Session.Relint
import LintMargin.Proofs.Session.Schedule
import LintMargin.Proofs.Session.Strokes

/-!
# Ticks

A tick empties three schedules: what is due for linting is passed over, what is due for drawing and was not
linted is drawn, and a status text that is due is put up. Its report tells which documents were linted and
which ones drawn. Nothing that is due is left behind, so that a host may sleep until the next deadline.
-/

namespace LintMargin.Session

universe u

variable {σ : Type u} (sv : Services σ) (now : Nat) (s : Session σ)

/-! ### What is linted -/

/-- Each of several passes is made in the session that those before it have left. -/
theorem mem_passAll_iff {docs : List DocumentId} {doc : DocumentId} {outcome : Outcome} :
    (doc, outcome) ∈ (passAll sv docs s).1 ↔
      ∃ before after, docs = before ++ doc :: after ∧
        ((passAll sv before s).2.runPass sv doc).1 = outcome := by
  induction docs generalizing s with
  | nil => simp [passAll]
  | cons d rest ih =>
      have hcons : (passAll sv (d :: rest) s).1 =
          (d, (s.runPass sv d).1) :: (passAll sv rest (s.runPass sv d).2).1 := rfl
      rw [hcons, List.mem_cons, ih]
      constructor
      · rintro (hfirst | ⟨before, after, rfl, houtcome⟩)
        · obtain ⟨rfl, rfl⟩ := Prod.mk.inj hfirst
          exact ⟨[], rest, rfl, rfl⟩
        · exact ⟨d :: before, after, rfl, houtcome⟩
      · rintro ⟨before, after, hdocs, houtcome⟩
        cases before with
        | nil =>
            obtain ⟨rfl, rfl⟩ := List.cons.inj hdocs
            exact .inl (Prod.ext rfl houtcome.symm)
        | cons d' before =>
            obtain ⟨rfl, rfl⟩ := List.cons.inj hdocs
            exact .inr ⟨before, after, rfl, houtcome⟩

theorem mem_lintedIn_iff {passes : List (DocumentId × Outcome)} {doc : DocumentId} :
    doc ∈ lintedIn passes ↔ ∃ rows, (doc, .linted rows) ∈ passes := by
  simp only [lintedIn, List.mem_map, List.mem_filter, Prod.exists]
  constructor
  · rintro ⟨d, outcome, ⟨hpass, hlinted⟩, rfl⟩
    cases outcome with
    | linted rows => exact ⟨rows, hpass⟩
    | _ => cases hlinted
  · rintro ⟨rows, hpass⟩
    exact ⟨doc, .linted rows, ⟨hpass, rfl⟩, rfl⟩

theorem lintedIn_sublist (docs : List DocumentId) :
    (lintedIn (passAll sv docs s).1).Sublist docs := by
  have hsublist := (List.filter_sublist (l := (passAll sv docs s).1)
    (p := fun pass => pass.2.isLinted)).map Prod.fst
  rwa [passed_by_passAll] at hsublist

/-! ### The report -/

/-- The session after the passes of a tick. -/
def afterPasses : Session σ :=
  (passAll sv (s.lintDelay.takeDue now).1 { s with lintDelay := (s.lintDelay.takeDue now).2 }).2

theorem tick_eq :
    s.tick sv now = finishTick now ((Act.ticked now).passes sv s, s.afterPasses sv now) :=
  rfl

theorem confined_afterPasses :
    Confined { s with lintDelay := (s.lintDelay.takeDue now).2 } (s.afterPasses sv now) :=
  confined_passAll sv _ _

theorem linted_tick : (s.tick sv now).1.linted = lintedIn ((Act.ticked now).passes sv s) := rfl

theorem rendered_tick : (s.tick sv now).1.rendered =
    (s.renderDelay.takeDue now).1.filter fun doc => !(s.tick sv now).1.linted.contains doc := by
  have hrender : (s.afterPasses sv now).renderDelay = s.renderDelay :=
    (confined_afterPasses sv now s).renderDelay
  rw [tick_eq, ← hrender]
  rfl

theorem statusUpdated_tick :
    (s.tick sv now).1.statusUpdated = !(s.statusDelay.takeDue now).1.isEmpty := by
  have hdrawn := confined_drawDue now (lintedIn ((Act.ticked now).passes sv s)) (s.afterPasses sv now)
  have hstatus := hdrawn.statusDelay.trans (confined_afterPasses sv now s).statusDelay
  rw [tick_eq, ← hstatus]
  rfl

/-- What a tick at some time has to report. -/
structure Reports (report : TickReport) : Prop where
  linted : ∀ doc, doc ∈ report.linted ↔ ∃ rows, (doc, .linted rows) ∈ (Act.ticked now).passes sv s
  linted_ascending : report.linted.Pairwise fun a b => a.number < b.number
  rendered : ∀ doc, doc ∈ report.rendered ↔
    (∃ d, s.renderDelay.deadline? doc = some d ∧ d ≤ now) ∧ doc ∉ report.linted
  rendered_ascending : report.rendered.Pairwise fun a b => a.number < b.number
  /-- No document is in the report twice. -/
  once : (report.linted ++ report.rendered).Nodup
  statusUpdated : report.statusUpdated = true ↔ ∃ d, s.statusDelay.deadline? () = some d ∧ d ≤ now

theorem takeDue_ascending_number (d : Debouncer DocumentId) :
    (d.takeDue now).1.Pairwise fun a b => a.number < b.number :=
  (d.takeDue_ascending now).imp UInt64.lt_iff_toNat_lt.mpr

theorem reports_tick : Reports sv now s (s.tick sv now).1 where
  linted doc := by rw [linted_tick, mem_lintedIn_iff]
  linted_ascending := (takeDue_ascending_number now s.lintDelay).sublist (lintedIn_sublist sv _ _)
  rendered doc := by
    rw [rendered_tick, List.mem_filter, Debouncer.mem_takeDue_iff]
    simp
  rendered_ascending := by
    rw [rendered_tick]
    exact (takeDue_ascending_number now s.renderDelay).filter _
  once := by
    refine List.nodup_append'.mpr ⟨?_, ?_, fun doc hlinted hrendered => ?_⟩
    · exact (s.lintDelay.nodup_takeDue now).sublist (lintedIn_sublist sv _ _)
    · rw [rendered_tick]
      exact (s.renderDelay.nodup_takeDue now).filter _
    · rw [rendered_tick, List.mem_filter] at hrendered
      simp [hlinted] at hrendered
  statusUpdated := by
    rw [statusUpdated_tick, Bool.not_eq_true', List.isEmpty_eq_false_iff_exists_mem]
    simp only [Debouncer.mem_takeDue_iff, Unique.exists_iff]

/-! ### What is drawn -/

theorem traced_refreshDue :
    s.editor.Traced (if (s.refreshDue now).1 then [.statusText] else []) (s.refreshDue now).2.editor := by
  by_cases hnone : (s.statusDelay.takeDue now).1.isEmpty = true
  · have hidle : s.refreshDue now = (false, { s with statusDelay := (s.statusDelay.takeDue now).2 }) := by
      simp [refreshDue, hnone]
    rw [hidle]
    exact .refl s.editor
  · have hdue : s.refreshDue now =
        (true, { s with statusDelay := (s.statusDelay.takeDue now).2 }.updateStatus) := by
      simp [refreshDue, hnone]
    rw [hdue]
    exact traced_updateStatus { s with statusDelay := (s.statusDelay.takeDue now).2 }

/-- The strokes of a tick, by what it reports. -/
def tickStrokes (passes : List (DocumentId × Outcome)) (report : TickReport) (store : Store) :
    List Stroke :=
  (passes.flatMap fun pass => pass.2.strokes pass.1 (store.diagnostics pass.1)) ++
    (report.rendered.flatMap fun doc => (store.diagnostics doc).strokes doc) ++
    if report.statusUpdated then [.statusText] else []

/-- Of each document that is reported, the strokes of a tick put up the tooltips once. -/
theorem filter_tickStrokes {passes : List (DocumentId × Outcome)} {report : TickReport}
    (hlinted : report.linted = lintedIn passes)
    (honce : (report.linted ++ report.rendered).Nodup) (store : Store) (doc : DocumentId) :
    (tickStrokes passes report store).filter (Stroke.isOf doc) =
      if doc ∈ report.linted ++ report.rendered then
        groupStrokes doc (store.diagnostics doc).entries
      else [] := by
  have hstatus : (if report.statusUpdated then [Stroke.statusText] else []).filter
      (Stroke.isOf doc) = [] := by
    split <;> rfl
  have hrendered : (report.rendered.flatMap fun d => (store.diagnostics d).strokes d).filter
      (Stroke.isOf doc) = report.rendered.flatMap fun d =>
        if d = doc then groupStrokes d (store.diagnostics d).entries else [] := by
    simp only [List.filter_flatMap, Stroke.filter_strokes]
  rw [tickStrokes, List.filter_append, List.filter_append, hstatus, List.append_nil, hrendered,
    Stroke.filter_passes, ← hlinted, ← List.flatMap_append]
  exact Stroke.flatMap_of_nodup honce fun d => groupStrokes d (store.diagnostics d).entries

theorem traced_tick : s.editor.Traced
    (tickStrokes ((Act.ticked now).passes sv s) (s.tick sv now).1 (s.tick sv now).2.store)
    (s.tick sv now).2.editor := by
  have hpassed := traced_passAll { s with lintDelay := (s.lintDelay.takeDue now).2 } sv
    (s.lintDelay.nodup_takeDue now)
  have hstore : (s.tick sv now).2.store = (s.afterPasses sv now).store :=
    (finishTick_keeps now _).2.1
  have hdrawn := traced_renderAll
    { s.afterPasses sv now with renderDelay := ((s.afterPasses sv now).renderDelay.takeDue now).2 }
    (s.tick sv now).1.rendered
  rw [hstore]
  exact (hpassed.trans hdrawn).trans (traced_refreshDue now _)

/-! ### What is still to come -/

/-- All deadlines that have come are gone, and the others are as they were. -/
structure Drained (t : Session σ) : Prop where
  lint : ∀ doc d, t.lintDelay.deadline? doc = some d ↔ s.lintDelay.deadline? doc = some d ∧ now < d
  render : ∀ doc d,
    t.renderDelay.deadline? doc = some d ↔ s.renderDelay.deadline? doc = some d ∧ now < d
  status : ∀ d, t.statusDelay.deadline? () = some d ↔ s.statusDelay.deadline? () = some d ∧ now < d

theorem drained_tick : Drained now s (s.tick sv now).2 where
  lint doc d := by
    rw [(confined_tick sv now s).lintDelay]
    exact Debouncer.deadline?_takeDue
  render doc d := by
    rw [(confined_tick sv now s).renderDelay]
    exact Debouncer.deadline?_takeDue
  status d := by
    rw [(confined_tick sv now s).statusDelay]
    exact Debouncer.deadline?_takeDue

variable {sv now s}

/-- The next deadline is that of one of the three schedules. -/
theorem nextDeadline_cases {due : Nat} (h : s.nextDeadline = some due) :
    s.lintDelay.nextDeadline = some due ∨ s.renderDelay.nextDeadline = some due ∨
      s.statusDelay.nextDeadline = some due := by
  have hmem := List.min?_mem h
  simpa [eq_comm] using hmem

theorem Drained.lt_nextDeadline {t : Session σ} (h : Drained now s t) {due : Nat}
    (hnext : t.nextDeadline = some due) : now < due := by
  rcases nextDeadline_cases hnext with hlint | hrender | hstatus
  · obtain ⟨⟨doc, hdoc⟩, -⟩ := Debouncer.nextDeadline_eq_some_iff.mp hlint
    exact ((h.lint doc due).mp hdoc).2
  · obtain ⟨⟨doc, hdoc⟩, -⟩ := Debouncer.nextDeadline_eq_some_iff.mp hrender
    exact ((h.render doc due).mp hdoc).2
  · obtain ⟨⟨_, hkey⟩, -⟩ := Debouncer.nextDeadline_eq_some_iff.mp hstatus
    exact ((h.status due).mp hkey).2

/-! ### A host that sleeps -/

/-- How many deadlines there are. -/
def pending (s : Session σ) : Nat :=
  s.lintDelay.pending + s.renderDelay.pending + s.statusDelay.pending

/-- Every tick at or after the next deadline leaves fewer deadlines. -/
theorem pending_tick_lt (sv : Services σ) {due : Nat} (hnext : s.nextDeadline = some due)
    (hlate : due ≤ now) :
    (s.tick sv now).2.pending < s.pending := by
  have hlint := s.lintDelay.length_takeDue now
  have hrender := s.renderDelay.length_takeDue now
  have hstatus := s.statusDelay.length_takeDue now
  have hleft : (s.tick sv now).2.pending = (s.lintDelay.takeDue now).2.pending +
      (s.renderDelay.takeDue now).2.pending + (s.statusDelay.takeDue now).2.pending := by
    rw [pending, (confined_tick sv now s).lintDelay, (confined_tick sv now s).renderDelay,
      (confined_tick sv now s).statusDelay]
  have htaken : 0 < (s.lintDelay.takeDue now).1.length ∨ 0 < (s.renderDelay.takeDue now).1.length ∨
      0 < (s.statusDelay.takeDue now).1.length := by
    simp only [List.length_pos_iff, Debouncer.takeDue_ne_nil_iff_nextDeadline]
    exact (nextDeadline_cases hnext).imp (⟨due, ·, hlate⟩)
      fun h => h.imp (⟨due, ·, hlate⟩) (⟨due, ·, hlate⟩)
  rw [hleft, pending]
  omega

/-- A host sleeps until the next deadline, maybe longer, and ticks when it wakes up, over and over; these
are the times at which it did. -/
inductive Naps (sv : Services σ) : Session σ → List Nat → Session σ → Prop where
  | stop (s : Session σ) : Naps sv s [] s
  | wake {s r : Session σ} {due now : Nat} {times : List Nat} (hnext : s.nextDeadline = some due)
      (hlate : due ≤ now) (hrest : Naps sv (s.tick sv now).2 times r) : Naps sv s (now :: times) r

/-- No two ticks of a host that sleeps are at the same time. -/
theorem Naps.ascending {r : Session σ} {times : List Nat} {before : Nat} (h : Naps sv s times r)
    (hnext : ∀ due, s.nextDeadline = some due → before < due) :
    (before :: times).Pairwise (· < ·) := by
  induction h generalizing before with
  | stop => exact List.pairwise_singleton _ before
  | wake hdue hlate hrest ih =>
      have hlater := ih fun _ hd => (drained_tick sv _ _).lt_nextDeadline hd
      have hbefore := Nat.lt_of_lt_of_le (hnext _ hdue) hlate
      refine List.pairwise_cons.mpr ⟨fun time htime => ?_, hlater⟩
      rcases List.mem_cons.mp htime with rfl | htime
      · exact hbefore
      · exact Nat.lt_trans hbefore (List.rel_of_pairwise_cons hlater htime)

/-- It does not wake up more often than there are deadlines. -/
theorem Naps.length_le {r : Session σ} {times : List Nat} (h : Naps sv s times r) :
    times.length + r.pending ≤ s.pending := by
  induction h with
  | stop s => exact Nat.le_of_eq (Nat.zero_add _)
  | wake hnext hlate hrest ih =>
      have hless := pending_tick_lt sv hnext hlate
      rw [List.length_cons]
      omega

/-! ### All of a tick -/

/-- A tick reports the documents that were due for linting and linted, and those that were due for drawing
and not linted, both in ascending order, and whether a status text was due. Each document that was due for
drawing is reported once, and drawn once, from what is stored in the end: the strokes of the tick are those
of its passes, then those of the documents drawn by themselves, then the status text that was due. All
deadlines up to now are gone, and the later ones are as they were; so the next one is still to come, and a
host that sleeps until then ticks at most once for each of them. -/
theorem tick_reports_and_drains (sv : Services σ) (s : Session σ) (now : Nat) :
    let passes := (Act.ticked now).passes sv s
    let report := (s.tick sv now).1
    let t := (s.tick sv now).2
    (∃ due, due.Pairwise (fun a b => a.number < b.number) ∧
      (∀ doc, doc ∈ due ↔ ∃ d, s.lintDelay.deadline? doc = some d ∧ d ≤ now) ∧
      ∀ doc outcome, (doc, outcome) ∈ passes ↔
        ∃ before after, due = before ++ doc :: after ∧
          ((passAll sv before { s with lintDelay := (s.lintDelay.takeDue now).2 }).2.runPass sv
            doc).1 = outcome) ∧
    Reports sv now s report ∧
    (∀ doc d, s.renderDelay.deadline? doc = some d → d ≤ now →
      (report.linted ++ report.rendered).count doc = 1) ∧
    (s.editor.Traced (tickStrokes passes report t.store) t.editor ∧
      ∀ doc, (tickStrokes passes report t.store).filter (Stroke.isOf doc) =
        if doc ∈ report.linted ++ report.rendered then
          groupStrokes doc (t.store.diagnostics doc).entries
        else []) ∧
    Drained now s t ∧ (∀ d, t.nextDeadline = some d → now < d) ∧
    ∀ times r, Naps sv t times r →
      (now :: times).Pairwise (· < ·) ∧ times.length + r.pending ≤ t.pending := by
  intro passes report t
  have hreports : Reports sv now s report := reports_tick sv now s
  have hdrained : Drained now s t := drained_tick sv now s
  have hsleeps : ∀ d, t.nextDeadline = some d → now < d := fun d => hdrained.lt_nextDeadline
  refine ⟨?passes, hreports, ?drawnOnce, ⟨traced_tick sv now s, ?strokes⟩, hdrained, hsleeps, ?naps⟩
  case passes =>
      exact ⟨(s.lintDelay.takeDue now).1, takeDue_ascending_number now s.lintDelay,
        fun doc => Debouncer.mem_takeDue_iff, fun doc outcome => mem_passAll_iff sv _⟩
  case drawnOnce =>
      intro doc d hdeadline hdue
      refine List.count_eq_one_of_mem hreports.once ?_
      by_cases hlinted : doc ∈ report.linted
      · exact List.mem_append_left _ hlinted
      · exact List.mem_append_right _ ((hreports.rendered doc).mpr ⟨⟨d, hdeadline, hdue⟩, hlinted⟩)
  case strokes => exact filter_tickStrokes (linted_tick sv now s) hreports.once t.store
  case naps => exact fun times r hnaps => ⟨hnaps.ascending hsleeps, hnaps.length_le⟩

/-- Two documents are due for drawing; the first one waits for a pass, the second one for a later one. -/
def crowded : Session Report :=
  (start .empty [] {}).run .reporting
    [.arranged ⟨(SortedMap.insert ∅ ⟨7⟩ ⟨"a", none, "source.js"⟩).insert ⟨8⟩ ⟨"b", none, "source.js"⟩,
        some ⟨7⟩, ∅⟩,
      .served [some ⟨1, 1, "first", none⟩], .saved ⟨7⟩ 0, .scrolled ⟨7⟩ 0, .scrolled ⟨8⟩ 0,
      .cursorMoved ⟨7⟩ 0, .saved ⟨8⟩ 5000]

/-- One of them is drawn by its pass, the other one by itself, and the host wakes up for its pass. -/
theorem tick_reports_and_drains_crowded :
    let report := (crowded.tick .reporting 2000).1
    let t := (crowded.tick .reporting 2000).2
    crowded.renderDelay.deadline? ⟨7⟩ = some 200 ∧ crowded.renderDelay.deadline? ⟨8⟩ = some 200 ∧
      report = ⟨[⟨7⟩], [⟨8⟩], true⟩ ∧
      (report.linted ++ report.rendered).count ⟨7⟩ = 1 ∧
      (report.linted ++ report.rendered).count ⟨8⟩ = 1 ∧
      t.nextDeadline = some 5050 ∧ 2000 < 5050 ∧
      Naps .reporting t [6000] (t.tick .reporting 6000).2 ∧ [2000, 6000].Pairwise (· < ·) := by
  intro report t
  have hfirst : crowded.renderDelay.deadline? ⟨7⟩ = some 200 := by decide
  have hsecond : crowded.renderDelay.deadline? ⟨8⟩ = some 200 := by decide
  have hnext : t.nextDeadline = some 5050 := by decide
  have hnaps : Naps .reporting t [6000] (t.tick .reporting 6000).2 :=
    .wake hnext (by decide) (.stop _)
  obtain ⟨-, -, honce, -, -, hlater, hsleeps⟩ := tick_reports_and_drains .reporting crowded 2000
  exact ⟨hfirst, hsecond, by decide, honce ⟨7⟩ 200 hfirst (by decide),
    honce ⟨8⟩ 200 hsecond (by decide), hnext, hlater 5050 hnext, hnaps, (hsleeps [6000] _ hnaps).1⟩

end LintMargin.Session
