import LintMargin.Proofs.Session.Acts

/-!
# Phases and stored diagnostics

The phase of a document and its entry in the store are set at different points of a pass, and apart from
each other when the document is opened, excluded or closed. Between two acts they agree all the same: a
document is annotated just as long as there are diagnostics of it in the store.
-/

namespace LintMargin

universe u

variable {σ : Type u}

/-! ### What becomes of a phase -/

/-- The phase of a document after a pass over it, given the phase before. -/
def Outcome.phaseAfter : Outcome → Option Phase → Option Phase
  | .skipped _, phase => phase
  | .ignored, _ => some .clean
  | .linted _, _ => some .annotated

/-- The phase of a document after some passes, of which only those over it count. -/
def phaseAfterPasses (doc : DocumentId) (passes : List (DocumentId × Outcome)) (phase : Option Phase) :
    Option Phase :=
  passes.foldl (fun phase pass => if pass.1 = doc then pass.2.phaseAfter phase else phase) phase

/-- The phase of a document after an act, given the phase before. -/
def Act.phaseAfter (sv : Services σ) (s : Session σ) (doc : DocumentId) (a : Act σ)
    (phase : Option Phase) : Option Phase :=
  match a with
  | .opened d _ => if d = doc then phase.or (some .clean) else phase
  | .closed d => if d = doc then none else phase
  | a => phaseAfterPasses doc (a.passes sv s) phase

section Phase

variable {doc : DocumentId} {passes : List (DocumentId × Outcome)} {phase : Option Phase}

theorem phaseAfterPasses_ne_none (h : phase ≠ none) : phaseAfterPasses doc passes phase ≠ none := by
  refine List.foldlRecOn (motive := fun phase => phase ≠ none) _ _ h fun before hbefore pass _ => ?_
  split
  · cases pass.2 <;> simp [Outcome.phaseAfter, hbefore]
  · exact hbefore

/-- Only a pass over an excluded document ends what another pass has begun. -/
theorem phaseAfterPasses_annotated (h : (doc, Outcome.ignored) ∉ passes) :
    phaseAfterPasses doc passes (some .annotated) = some .annotated := by
  refine List.foldlRecOn (motive := fun phase => phase = some Phase.annotated) _ _ rfl
    fun before hbefore pass hpass => ?_
  obtain ⟨d, outcome⟩ := pass
  split
  · next hd =>
      obtain rfl : d = doc := hd
      cases outcome with
      | skipped => exact hbefore
      | ignored => exact absurd hpass h
      | linted => rfl
  · exact hbefore

variable {sv : Services σ} {s : Session σ} {a : Act σ}

/-- While a document is not closed, its phase changes only when it is opened or passed over. -/
theorem Act.phaseAfter_keeps {Q : Option Phase → Prop} (hopen : a ≠ .closed doc) (hbefore : Q phase)
    (hopened : Q (phase.or (some .clean)))
    (hpassed : Q (phaseAfterPasses doc (a.passes sv s) phase)) : Q (a.phaseAfter sv s doc phase) := by
  cases a with
  | opened d now =>
      simp only [phaseAfter]
      split
      · exact hopened
      · exact hbefore
  | closed d =>
      have hd : d ≠ doc := fun heq => hopen (heq ▸ rfl)
      rwa [phaseAfter, if_neg hd]
  | _ => exact hpassed

theorem Act.phaseAfter_ne_none (hopen : a ≠ .closed doc) (h : phase ≠ none) :
    a.phaseAfter sv s doc phase ≠ none := by
  refine phaseAfter_keeps (Q := fun phase => phase ≠ none) hopen h ?_ (phaseAfterPasses_ne_none h)
  cases phase <;> simp

theorem Act.phaseAfter_annotated (hopen : a ≠ .closed doc)
    (hincluded : (doc, Outcome.ignored) ∉ a.passes sv s) :
    a.phaseAfter sv s doc (some .annotated) = some .annotated :=
  phaseAfter_keeps (Q := fun phase => phase = some Phase.annotated) hopen rfl rfl
    (phaseAfterPasses_annotated hincluded)

end Phase

namespace Session

/-! ### Every act does that to the phase -/

section Phase

variable (sv : Services σ) (s : Session σ) (doc : DocumentId)

theorem phase?_runPass (d : DocumentId) :
    (s.runPass sv d).2.phase? doc =
      if d = doc then (s.runPass sv d).1.phaseAfter (s.phase? doc) else s.phase? doc := by
  split
  · next hd =>
      obtain rfl : d = doc := hd
      have hresult := runPass_result sv d s
      generalize s.runPass sv d = result at hresult ⊢
      cases hresult with
      | noDocument => rfl
      | unsupported => rfl
      | ignored => exact SortedMap.get?_insert_self _ d Phase.clean
      | @noConfig contents =>
          have hasked := (beside_lookUp sv contents s).phases
          rw [phase?, hasked]
          rfl
      | linted =>
          rw [lintDocument_eq]
          exact SortedMap.get?_insert_self _ d Phase.annotated
  · next hd => exact (spares_runPass sv s hd).phases

theorem phase?_passAll (docs : List DocumentId) :
    (passAll sv docs s).2.phase? doc =
      phaseAfterPasses doc (passAll sv docs s).1 (s.phase? doc) := by
  induction docs generalizing s with
  | nil => rfl
  | cons d rest ih => exact (ih _).trans (congrArg _ (phase?_runPass sv s doc d))

theorem phase?_opened (d : DocumentId) (now : Nat) :
    (s.opened d now).phase? doc = if d = doc then (s.phase? doc).or (some .clean) else s.phase? doc := by
  simp only [opened, phase?]
  split
  · next hknown =>
      obtain ⟨p, hp⟩ := Option.isSome_iff_exists.mp hknown
      split
      · next hd =>
          have hsame : s.phases.get? d = some p := hp
          rw [← hd, hsame, Option.some_or]
          exact hsame
      · rfl
  · next hnew =>
      have hnone : s.phases.get? d = none := Option.not_isSome_iff_eq_none.mp hnew
      refine (SortedMap.get?_insert s.phases d .clean doc).trans ?_
      split
      · next hd => rw [← hd, hnone, Option.none_or]
      · rfl

theorem phases_attend (d : DocumentId) : (s.attend d).phases = s.phases := by
  rcases s.attend_cases d with h | h
  · rw [h]
  · rw [h]
    rfl

theorem phase?_activated (d : DocumentId) :
    (s.activated sv d).2.phase? doc =
      phaseAfterPasses doc [(d, (s.activated sv d).1)] (s.phase? doc) := by
  have hpassed := phase?_runPass sv (s.attend d) doc d
  rw [show (s.attend d).phase? doc = s.phase? doc by rw [phase?, phases_attend, phase?]] at hpassed
  rw [activated_eq]
  dsimp only
  split <;> exact hpassed

theorem phase?_lintNow :
    (s.lintNow sv).2.phase? doc =
      phaseAfterPasses doc (s.editor.active.toList.zip (s.lintNow sv).1.toList) (s.phase? doc) := by
  unfold lintNow
  cases s.editor.active with
  | none => rfl
  | some d => exact phase?_runPass sv { s with lintDelay := s.lintDelay.cancel d } doc d

theorem phases_retune (settings : Settings) : (s.retune sv settings).phases = s.phases :=
  retune_induction (P := fun r => r.phases = s.phases) rfl fun _ _ _ hr => hr

theorem phase?_reconfigure (settings : Settings) :
    (s.reconfigure sv settings).2.phase? doc =
      phaseAfterPasses doc (s.editor.active.toList.zip (s.reconfigure sv settings).1.toList)
        (s.phase? doc) := by
  have hfocus := (undisturbed_retune sv settings s).editor.active
  have hlinted := phase?_lintNow sv (s.retune sv settings) doc
  rwa [hfocus, phase?, phase?, phases_retune] at hlinted

/-- The phase of a document depends on its passes, and on its being opened and closed, alone. -/
theorem phase?_act (a : Act σ) : (s.act sv a).phase? doc = a.phaseAfter sv s doc (s.phase? doc) := by
  cases a with
  | opened d now => exact phase?_opened s doc d now
  | activated d => exact phase?_activated sv s doc d
  | closed d => exact SortedMap.get?_erase s.phases d doc
  | edited d now =>
      simp only [act, edited]
      split <;> rfl
  | reconfigured settings => exact phase?_reconfigure sv s doc settings
  | ticked now =>
      have hpassed := phase?_passAll sv { s with lintDelay := (s.lintDelay.takeDue now).2 } doc
        (s.lintDelay.takeDue now).1
      exact (congrArg (SortedMap.get? · doc) (finishTick_keeps now _).2.2).trans hpassed
  | askedToLint => exact phase?_lintNow sv s doc
  | passed d => exact phase?_runPass sv s doc d
  | wentToNext => exact congrArg (SortedMap.get? · doc) (goToNext_beside s).phases
  | wentToDisplayed => exact congrArg (SortedMap.get? · doc) (goToDisplayed_beside s).phases
  | _ => rfl

end Phase

/-! ### Phases and the store -/

/-- A document is annotated just as long as its diagnostics are stored, and no pass over it is under
way. -/
structure Mirrors (s : Session σ) (doc : DocumentId) : Prop where
  settled : s.phase? doc ≠ some .linting
  annotated : s.phase? doc = some .annotated ↔ s.store.contains doc = true

section Mirrors

variable {sv : Services σ} {s t : Session σ} {doc : DocumentId}

theorem Mirrors.congr (hs : s.Mirrors doc) (hphases : t.phases.get? doc = s.phases.get? doc)
    (hstore : t.store.get? doc = s.store.get? doc) : t.Mirrors doc where
  settled := by
    rw [phase?, hphases]
    exact hs.settled
  annotated := by
    rw [phase?, hphases, SortedMap.contains, hstore]
    exact hs.annotated

theorem Mirrors.spares (hs : s.Mirrors doc) (h : Spares doc s t) : t.Mirrors doc :=
  hs.congr h.phases h.store

theorem mirrors_of_not_stored (hphase : s.phase? doc = none ∨ s.phase? doc = some .clean)
    (hstore : s.store.get? doc = none) : s.Mirrors doc where
  settled := by rcases hphase with h | h <;> simp [h]
  annotated := by rcases hphase with h | h <;> simp [h, SortedMap.contains, hstore]

theorem mirrors_of_annotated (hphase : s.phase? doc = some .annotated)
    (hstore : s.store.contains doc = true) : s.Mirrors doc where
  settled := by simp [hphase]
  annotated := by simp [hphase, hstore]

/-- The exits of a pass keep phase and store in line, those before anything was asked included. -/
theorem Mirrors.runPass (hs : s.Mirrors doc) (d : DocumentId) : (s.runPass sv d).2.Mirrors doc := by
  by_cases hd : d = doc
  · subst hd
    have hresult := runPass_result sv d s
    generalize s.runPass sv d = result at hresult ⊢
    cases hresult with
    | noDocument => exact hs
    | unsupported => exact hs
    | ignored =>
        exact mirrors_of_not_stored (.inr (SortedMap.get?_insert_self s.phases d .clean))
          (SortedMap.get?_erase_self s.store d)
    | @noConfig contents => exact hs.spares ((beside_lookUp sv contents s).spares d)
    | @linted contents =>
        refine mirrors_of_annotated ?_ ?_
        · rw [lintDocument_eq]
          exact SortedMap.get?_insert_self _ d Phase.annotated
        · rw [store_lintDocument, SortedMap.contains, SortedMap.get?_insert_self, Option.isSome_some]
  · exact hs.spares (spares_runPass sv s hd)

theorem Step.mirrors {P : DocumentId → Prop} {made : List (DocumentId × Outcome)}
    (h : Step sv P made s t) (hs : s.Mirrors doc) : t.Mirrors doc := by
  cases h with
  | beside h => exact hs.spares (h.spares doc)
  | arrange => exact hs.congr rfl rfl
  | @pass _ d => exact hs.runPass d
  | render => exact hs.congr rfl rfl
  | @purge _ d =>
      by_cases hd : d = doc
      · subst hd
        exact mirrors_of_not_stored (.inl (SortedMap.get?_erase_self s.phases d))
          (SortedMap.get?_erase_self s.store d)
      · exact hs.congr (SortedMap.get?_erase_of_ne _ hd) (SortedMap.get?_erase_of_ne _ hd)
  | release => exact hs.congr rfl rfl
  | register => exact hs.congr rfl rfl
  | @greet _ d _ hnew =>
      by_cases hd : d = doc
      · subst hd
        have hunknown : s.phase? d = none := Option.not_isSome_iff_eq_none.mp (Bool.not_eq_true _ ▸ hnew)
        have hnone : s.store.contains d ≠ true := by
          rw [ne_eq, ← hs.annotated, hunknown]
          simp
        exact mirrors_of_not_stored (.inr (SortedMap.get?_insert_self s.phases d .clean))
          (Option.not_isSome_iff_eq_none.mp hnone)
      · exact hs.spares (spares_setPhase s .clean hd)

theorem Reachable.mirrors (h : Reachable sv s) (doc : DocumentId) : s.Mirrors doc := by
  obtain ⟨manner, status, services, settings, acts, rfl⟩ := h
  exact (run_steps_of_true sv _ acts).keep (fun _ _ _ hstep hs => hstep.mirrors hs)
    (mirrors_of_not_stored (.inl rfl) rfl)

end Mirrors

/-- Nothing is stored of a document, nothing is held of it and nothing of it can be seen. -/
structure Bare (s : Session σ) (doc : DocumentId) : Prop where
  store : s.store.get? doc = none
  anchors : s.anchors.rows doc = []
  tooltips : s.renderer.handles doc = []
  liveAnchors : s.editor.liveAnchors doc = []
  liveTooltips : s.editor.liveTooltips doc = []

theorem Consistent.rows_eq_nil {s : Session σ} {doc : DocumentId} (hs : s.Consistent)
    (hstore : s.store.get? doc = none) : s.anchors.rows doc = [] := by
  rw [hs.rows_eq, Store.rows, Store.diagnostics_of_get?_eq_none hstore]
  rfl

theorem Consistent.bare {s : Session σ} {doc : DocumentId} (hs : s.Consistent)
    (hstore : s.store.get? doc = none) : s.Bare doc where
  store := hstore
  anchors := hs.rows_eq_nil hstore
  tooltips := by
    have hlength := hs.length_handles doc
    rw [Store.diagnostics_of_get?_eq_none hstore] at hlength
    exact List.length_eq_zero_iff.mp hlength
  liveAnchors := by
    have hentries : (s.anchors.ofDocument doc).entries = [] :=
      List.map_eq_nil_iff.mp (hs.rows_eq_nil hstore)
    have hperm := hs.liveAnchors_perm doc
    rw [hentries] at hperm
    exact hperm.eq_nil
  liveTooltips := hs.liveTooltips_eq_nil hstore

/-! ### Between any two acts -/

section Run

variable {sv : Services σ} {s : Session σ} {doc : DocumentId} {acts : List (Act σ)}

theorem phase?_run_ne_none (h : s.phase? doc ≠ none) (hopen : ∀ a ∈ acts, a ≠ .closed doc) :
    (s.run sv acts).phase? doc ≠ none := by
  induction acts generalizing s with
  | nil => exact h
  | cons a rest ih =>
      have hfirst : (s.act sv a).phase? doc ≠ none := by
        rw [phase?_act]
        exact Act.phaseAfter_ne_none (hopen a List.mem_cons_self) h
      exact ih hfirst fun b hb => hopen b (List.mem_cons_of_mem a hb)

theorem ignored_mem_passes (h : s.phase? doc = some .annotated)
    (hopen : ∀ a ∈ acts, a ≠ .closed doc)
    (hleft : (s.run sv acts).phase? doc ≠ some .annotated) :
    (doc, .ignored) ∈ passes sv s acts := by
  induction acts generalizing s with
  | nil => exact absurd h hleft
  | cons a rest ih =>
      by_cases hignored : (doc, .ignored) ∈ a.passes sv s
      · exact List.mem_append_left _ hignored
      · have hfirst : (s.act sv a).phase? doc = some .annotated := by
          rw [phase?_act, h]
          exact Act.phaseAfter_annotated (hopen a List.mem_cons_self) hignored
        exact List.mem_append_right _
          (ih hfirst (fun b hb => hopen b (List.mem_cons_of_mem a hb)) hleft)

end Run

/-- After any run, no document is being linted, and the annotated ones are those with an entry in the
store; of any other nothing is stored, held or to be seen. The phase of a document is a matter of the
passes over it, and of its being opened and closed. As long as it is not closed it does not lose its phase,
and it stays annotated unless a pass over it finds that it is excluded. -/
theorem phases_mirror_store {sv : Services σ} {s : Session σ} (hs : Reachable sv s)
    (doc : DocumentId) :
    s.phase? doc ≠ some .linting ∧
    (s.phase? doc = some .annotated ↔ s.store.contains doc = true) ∧
    (s.phase? doc ≠ some .annotated → s.Bare doc) ∧
    (∀ a, (s.act sv a).phase? doc = a.phaseAfter sv s doc (s.phase? doc)) ∧
    ∀ acts, (∀ a ∈ acts, a ≠ .closed doc) →
      let t := s.run sv acts
      (s.phase? doc ≠ none → t.phase? doc ≠ none) ∧
      (s.phase? doc = some .annotated → t.phase? doc ≠ some .annotated →
        (doc, .ignored) ∈ passes sv s acts) := by
  have hmirrors := hs.mirrors doc
  refine ⟨hmirrors.settled, hmirrors.annotated, fun hphase => ?_, phase?_act sv s doc,
    fun acts hopen => ⟨fun h => phase?_run_ne_none h hopen,
      fun h hleft => ignored_mem_passes h hopen hleft⟩⟩
  have hnone : s.store.contains doc ≠ true := fun hstored => hphase (hmirrors.annotated.mpr hstored)
  exact hs.consistent.bare (Option.not_isSome_iff_eq_none.mp hnone)

end Session

/-- Services that exclude the files they are told to, and find nothing in the others. -/
def Services.excluding : Services (List Path) where
  isIgnored path excluded := (excluded.contains path, excluded)
  resolve _ excluded := (.empty, excluded)
  forget excluded := excluded
  lint _ _ _ _ excluded := (.ok [], excluded)

namespace Session

/-- A document was linted, and nothing was found in it. -/
def spotless : Session (List Path) :=
  (start .empty [] {}).run .excluding
    [.arranged ⟨SortedMap.insert ∅ ⟨7⟩ ⟨"a", some ⟨"a.js"⟩, "source.js"⟩, some ⟨7⟩, ∅⟩,
      .activated ⟨7⟩]

/-- The document is opened once more, excluded and linted again. -/
theorem phases_mirror_store_spotless :
    let acts : List (Act (List Path)) := [.opened ⟨7⟩ 0, .served [⟨"a.js"⟩], .ticked 5000]
    let t := spotless.run .excluding acts
    Reachable .excluding spotless ∧ (∀ a ∈ acts, a ≠ .closed ⟨7⟩) ∧
      spotless.phase? ⟨7⟩ = some .annotated ∧ spotless.store.get? ⟨7⟩ = some ∅ ∧
      t.phase? ⟨7⟩ = some .clean ∧ (⟨7⟩, .ignored) ∈ passes .excluding spotless acts ∧
      t.Bare ⟨7⟩ := by
  intro acts t
  have hreachable : Reachable .excluding spotless := ⟨.plain, none, [], {}, _, rfl⟩
  have hopen : ∀ a ∈ acts, a ≠ .closed ⟨7⟩ := by
    intro a ha
    simp only [acts, List.mem_cons, List.not_mem_nil, or_false] at ha
    rcases ha with rfl | rfl | rfl <;> simp
  have hbefore : spotless.phase? ⟨7⟩ = some .annotated := by decide
  have hafter : t.phase? ⟨7⟩ = some .clean := by decide
  have hleft : t.phase? ⟨7⟩ ≠ some .annotated := by
    rw [hafter]
    decide
  have ht : Reachable .excluding t :=
    ((hreachable.act (.opened ⟨7⟩ 0)).act (.served [⟨"a.js"⟩])).act (.ticked 5000)
  obtain ⟨-, -, -, -, hruns⟩ := phases_mirror_store hreachable ⟨7⟩
  obtain ⟨-, -, hbare, -⟩ := phases_mirror_store ht ⟨7⟩
  exact ⟨hreachable, hopen, hbefore, by decide, hafter, (hruns acts hopen).2 hbefore hleft,
    hbare hleft⟩

end Session

end LintMargin
