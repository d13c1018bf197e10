import LintMargin.Proofs.Session.Desk
import LintMargin.Proofs.Session.Schedule
import LintMargin.Proofs.Session.Step

/-!
# Verdicts

If the services answer the same to the same questions, then what a pass does to a document is a matter of
the document and the settings alone. The verdict says what that is; passes over different documents do not
get into each other's way, so what several of them come to can be read off their verdicts.
-/

namespace LintMargin

universe u

variable {σ : Type u}

/-- While their state passes the test, and asking does not keep it from passing, the answers of services
are functions of the questions. -/
structure Services.Functional (sv : Services σ) (Good : σ → Prop) : Prop where
  isIgnored : ∀ {path a b}, Good a → Good b → (sv.isIgnored path a).1 = (sv.isIgnored path b).1
  resolve : ∀ {path a b}, Good a → Good b → (sv.resolve path a).1 = (sv.resolve path b).1
  lint : ∀ {flavor source config globals a b}, Good a → Good b →
    (sv.lint flavor source config globals a).1 = (sv.lint flavor source config globals b).1
  keeps : sv.Keeps (fun _ => True) Good

/-- What a pass over a document comes to. -/
inductive Verdict where
  /-- All that is held of it stays. -/
  | skip (reason : SkipReason)
  /-- Nothing is to be shown of it. -/
  | clear
  /-- A linter was asked for it and found this. -/
  | replace (found : Diagnostics) (request : Call)

namespace Verdict

def outcome : Verdict → Outcome
  | .skip reason => .skipped reason
  | .clear => .ignored
  | .replace found _ => .linted found.size

/-- The stored diagnostics after a pass, given those before it. -/
def entry : Verdict → Option Diagnostics → Option Diagnostics
  | .skip _, old => old
  | .clear, _ => none
  | .replace found _, _ => some found

def phase : Verdict → Option Phase → Option Phase
  | .skip _, old => old
  | .clear, _ => some .clean
  | .replace .., _ => some .annotated

/-- The requests for a linter. -/
def requests : Verdict → List Call
  | .replace _ request => [request]
  | _ => []

end Verdict

/-! ### Requests for linters -/

namespace Editor

variable {e f g : Editor} {test : Call → Prop} {early late : List Call}

/-- Between the two, these requests for a linter were made. -/
def Consulted (requests : List Call) (e f : Editor) : Prop :=
  ∃ calls, f.journal = e.journal ++ calls ∧ calls.filter Call.isLint = requests

theorem Consulted.refl (e : Editor) : Consulted [] e e := ⟨[], by simp, rfl⟩

theorem Consulted.trans (h : Consulted early e f) (h' : Consulted late f g) :
    Consulted (early ++ late) e g := by
  obtain ⟨calls, hjournal, rfl⟩ := h
  obtain ⟨later, hlater, rfl⟩ := h'
  exact ⟨calls ++ later, by rw [hlater, hjournal, List.append_assoc], List.filter_append _ _⟩

theorem Asked.consulted (h : e.Asked test f) (htest : ∀ c, test c → c.isLint = false) :
    Consulted [] e f := by
  obtain ⟨calls, hjournal, hcalls⟩ := h
  refine ⟨calls, hjournal, List.filter_eq_nil_iff.mpr fun c hc => ?_⟩
  rw [htest c (hcalls c hc)]
  exact Bool.false_ne_true

end Editor

namespace Session

variable {sv : Services σ} {Good : σ → Prop} {s t r : Session σ} {doc : DocumentId} {d : Document}

theorem Beside.consulted (h : Beside s t) : Editor.Consulted [] s.editor t.editor :=
  h.editor.asked.consulted fun _ hc => (Call.kinds_of_isNeutral hc).1

/-- What a pass over a document would come to now. -/
def verdict (sv : Services σ) (doc : DocumentId) (s : Session σ) : Verdict :=
  match s.editor.documents.get? doc with
  | none => .skip .noDocument
  | some d =>
    if isSupportedGrammar d.grammar then
      if s.isExcluded sv d then .clear
      else if s.settings.onlyConfig && !(s.lookUp sv d).1.isDiscovered then .skip .noConfig
      else .replace
        (diagnosticsOf s.settings d
          (.ofAnswer ((s.lookUp sv d).2.linterAnswer sv d (s.lookUp sv d).1)))
        (lintCall s.settings d (s.lookUp sv d).1)
    else .skip .unsupportedGrammar

/-! ### The verdict at each end of a pass -/

theorem verdict_of_noDocument (hdoc : s.editor.documents.get? doc = none) :
    s.verdict sv doc = .skip .noDocument := by
  simp only [verdict, hdoc]

section Open

variable (hdoc : s.editor.documents.get? doc = some d)

include hdoc

theorem verdict_of_unsupported (hgrammar : isSupportedGrammar d.grammar = false) :
    s.verdict sv doc = .skip .unsupportedGrammar := by
  simp [verdict, hdoc, hgrammar]

variable (hgrammar : isSupportedGrammar d.grammar = true)

include hgrammar

theorem verdict_of_ignored {path : Path} (hpath : d.path = some path)
    (hignored : (sv.isIgnored path s.services).1 = true) : s.verdict sv doc = .clear := by
  simp [verdict, hdoc, hgrammar, isExcluded, hpath, hignored]

variable (hexcluded : s.isExcluded sv d = false)

include hexcluded

theorem verdict_of_noConfig
    (hconfig : s.settings.onlyConfig = true ∧ (s.lookUp sv d).1.isDiscovered = false) :
    s.verdict sv doc = .skip .noConfig := by
  simp [verdict, hdoc, hgrammar, hexcluded, hconfig]

theorem verdict_of_linted
    (hconfig : ¬ (s.settings.onlyConfig = true ∧ (s.lookUp sv d).1.isDiscovered = false)) :
    s.verdict sv doc = .replace
      (diagnosticsOf s.settings d (.ofAnswer ((s.lookUp sv d).2.linterAnswer sv d (s.lookUp sv d).1)))
      (lintCall s.settings d (s.lookUp sv d).1) := by
  simp [verdict, hdoc, hgrammar, hexcluded, hconfig]

end Open

end Session

/-! ### Verdicts stay the same -/

namespace Services.Functional

open Session

variable {sv : Services σ} {Good : σ → Prop} {s t : Session σ}

theorem good_lookUp (hsv : sv.Functional Good) (hs : Good s.services) (d : Document) :
    Good (s.lookUp sv d).2.services :=
  keeps_lookUp hsv.keeps (fun _ _ => trivial) hs

theorem good_runPass (hsv : sv.Functional Good) (hs : Good s.services) (doc : DocumentId) :
    Good (s.runPass sv doc).2.services :=
  keeps_runPass hsv.keeps (fun _ _ _ _ => trivial) hs

theorem good_passAll (hsv : sv.Functional Good) (hs : Good s.services) (docs : List DocumentId) :
    Good (passAll sv docs s).2.services := by
  induction docs generalizing s with
  | nil => exact hs
  | cons doc rest ih => exact ih (hsv.good_runPass hs doc)

theorem good_tick (hsv : sv.Functional Good) (hs : Good s.services) (now : Nat) :
    Good (s.tick sv now).2.services := by
  have hpassed := hsv.good_passAll (s := { s with lintDelay := (s.lintDelay.takeDue now).2 }) hs
    (s.lintDelay.takeDue now).1
  exact (finishTick_keeps now _).1.symm ▸ hpassed

theorem lookUp_eq (hsv : sv.Functional Good) (hs : Good s.services) (ht : Good t.services)
    (d : Document) : (t.lookUp sv d).1 = (s.lookUp sv d).1 := by
  unfold lookUp
  cases d.path with
  | none => rfl
  | some path => exact hsv.resolve (hsv.keeps.isIgnored trivial ht) (hsv.keeps.isIgnored trivial hs)

theorem verdict_eq (hsv : sv.Functional Good) (hs : Good s.services) (ht : Good t.services)
    (h : Undisturbed s t) (doc : DocumentId) : t.verdict sv doc = s.verdict sv doc := by
  have hexcluded : ∀ d, t.isExcluded sv d = s.isExcluded sv d := by
    intro d
    unfold isExcluded
    cases d.path with
    | none => rfl
    | some path => exact hsv.isIgnored ht hs
  have hanswer : ∀ d config, (t.lookUp sv d).2.linterAnswer sv d config =
      (s.lookUp sv d).2.linterAnswer sv d config := by
    intro d config
    simp only [linterAnswer, settings_lookUp, h.settings]
    exact hsv.lint (hsv.good_lookUp ht d) (hsv.good_lookUp hs d)
  simp only [verdict, h.editor.documents, h.settings, hexcluded, hsv.lookUp_eq hs ht, hanswer]

end Services.Functional

/-! ### A pass does what its verdict says -/

namespace Session

variable {sv : Services σ} {s t r : Session σ} {doc : DocumentId} {docs more : List DocumentId}

/-- Some documents were passed over: the diagnostics and phases are those of the verdicts, linters were
asked for as they say, and a row that had an anchor and still has issues has the same anchor. -/
structure PassedOver (sv : Services σ) (docs : List DocumentId) (s t : Session σ) : Prop where
  store : ∀ d, t.store.get? d =
    if d ∈ docs then (s.verdict sv d).entry (s.store.get? d) else s.store.get? d
  phases : ∀ d, t.phases.get? d =
    if d ∈ docs then (s.verdict sv d).phase (s.phases.get? d) else s.phases.get? d
  consulted : Editor.Consulted (docs.flatMap fun d => (s.verdict sv d).requests) s.editor t.editor
  retained : ∀ d row h, s.anchors.anchor? d row = some h → row ∈ t.store.rows d →
    t.anchors.anchor? d row = some h

theorem PassedOver.nil (sv : Services σ) (s : Session σ) : PassedOver sv [] s s where
  store d := by simp
  phases d := by simp
  consulted := .refl _
  retained _ _ _ h _ := h

/-- It is enough to look at the document itself if the others are spared. -/
theorem PassedOver.single (hspares : ∀ d, doc ≠ d → Spares d s t)
    (hstore : t.store.get? doc = (s.verdict sv doc).entry (s.store.get? doc))
    (hphase : t.phases.get? doc = (s.verdict sv doc).phase (s.phases.get? doc))
    (hconsulted : Editor.Consulted (s.verdict sv doc).requests s.editor t.editor)
    (hretained : ∀ row h, s.anchors.anchor? doc row = some h → row ∈ t.store.rows doc →
      t.anchors.anchor? doc row = some h) :
    PassedOver sv [doc] s t where
  store d := by
    by_cases hd : d = doc
    · subst hd
      simpa using hstore
    · simpa [hd] using (hspares d (Ne.symm hd)).store
  phases d := by
    by_cases hd : d = doc
    · subst hd
      simpa using hphase
    · simpa [hd] using (hspares d (Ne.symm hd)).phases
  consulted := by simpa using hconsulted
  retained d row h hanchor hrow := by
    by_cases hd : d = doc
    · subst hd
      exact hretained row h hanchor hrow
    · rwa [Anchors.anchor?, Anchors.ofDocument, (hspares d (Ne.symm hd)).anchors]

/-- A pass that is skipped does nothing but ask. -/
theorem PassedOver.skipped (h : Beside s t) (reason : SkipReason)
    (hverdict : s.verdict sv doc = .skip reason) : PassedOver sv [doc] s t := by
  refine .single (fun d _ => h.spares d) ?_ ?_ ?_ fun row g hanchor _ => ?_
  · rw [hverdict, h.store]
    rfl
  · rw [hverdict, h.phases]
    rfl
  · rw [hverdict]
    exact h.consulted
  · rwa [h.anchors]

/-- A row that had an anchor and still has issues keeps it. -/
theorem retained_of_linted (hs : s.Consistent) {rows : Nat}
    (hlinted : (s.runPass sv doc).1 = .linted rows) (row : Row) (h : Handle)
    (hanchor : s.anchors.anchor? doc row = some h) (hrow : row ∈ (s.runPass sv doc).2.store.rows doc) :
    (s.runPass sv doc).2.anchors.anchor? doc row = some h := by
  obtain ⟨d, -, hstore, -, made, -, -, hkept⟩ := runPass_redrawn hs hlinted
  rw [Store.rows, hstore, Store.diagnostics_insert_self] at hrow
  exact hkept row h hrow hanchor

/-- An excluded document is forgotten without a word to the linters. -/
theorem consulted_forgetDiagnostics (sv : Services σ) (path : Path) (doc : DocumentId) (s : Session σ) :
    Editor.Consulted [] s.editor
      (((s.askIgnored sv path).2.forgetDiagnostics doc).updateStatus).editor := by
  have hasked := (beside_askIgnored sv path s).consulted
  have hforgotten := (worksOn_forgetDiagnostics (s.askIgnored sv path).2 doc).asked.consulted
    fun _ hc => hc.1
  exact (hasked.trans hforgotten).trans (beside_updateStatus _).consulted

/-- A document is linted with a single request. -/
theorem consulted_lintDocument (sv : Services σ) (doc : DocumentId) (d : Document) (s : Session σ) :
    Editor.Consulted [lintCall s.settings d (s.lookUp sv d).1] s.editor
      ((s.lookUp sv d).2.lintDocument sv doc d (s.lookUp sv d).1).2.editor := by
  have hlookedUp := (beside_lookUp sv d s).consulted
  have hasked : Editor.Consulted [lintCall s.settings d (s.lookUp sv d).1] (s.lookUp sv d).2.editor
      ((s.lookUp sv d).2.stored sv doc d (s.lookUp sv d).1).editor := by
    refine ⟨_, journal_stored sv doc d _ _, ?_⟩
    rw [settings_lookUp]
    rfl
  have hdrawn := (worksOn_draw ((s.lookUp sv d).2.stored sv doc d (s.lookUp sv d).1)
    doc).asked.consulted fun _ hc => hc.1
  exact ((hlookedUp.trans hasked).trans hdrawn).trans (beside_updateStatus _).consulted

theorem runPass_passedOver (hs : s.Consistent) (sv : Services σ) (doc : DocumentId) :
    PassedOver sv [doc] s (s.runPass sv doc).2 := by
  have hspares : ∀ d, doc ≠ d → Spares d s (s.runPass sv doc).2 := fun d hd => spares_runPass sv s hd
  have hresult := runPass_result sv doc s
  generalize hpass : s.runPass sv doc = result at hspares hresult ⊢
  cases hresult with
  | noDocument hdoc => exact .skipped (.refl s) .noDocument (verdict_of_noDocument hdoc)
  | unsupported hdoc hgrammar =>
      exact .skipped (.refl s) .unsupportedGrammar (verdict_of_unsupported hdoc hgrammar)
  | @noConfig d hdoc hgrammar hexcluded hconfig =>
      exact .skipped (beside_lookUp sv d s) .noConfig
        (verdict_of_noConfig hdoc hgrammar hexcluded hconfig)
  | @ignored d path hdoc hgrammar hpath hignored =>
      have hverdict := verdict_of_ignored hdoc hgrammar hpath hignored
      refine .single hspares ?_ ?_ ?_ fun row h _ hrow => ?_
      · rw [hverdict]
        exact SortedMap.get?_erase_self s.store doc
      · rw [hverdict]
        exact SortedMap.get?_insert_self s.phases doc .clean
      · rw [hverdict]
        exact consulted_forgetDiagnostics sv path doc s
      · have hnone : (s.store.erase doc).get? doc = none := SortedMap.get?_erase_self s.store doc
        change row ∈ Store.rows (s.store.erase doc) doc at hrow
        rw [Store.rows, Store.diagnostics_of_get?_eq_none hnone] at hrow
        cases hrow
  | @linted d hdoc hgrammar hexcluded hconfig =>
      have hverdict := verdict_of_linted hdoc hgrammar hexcluded hconfig
      have hlinted : (s.runPass sv doc).1 = .linted (diagnosticsOf (s.lookUp sv d).2.settings d
          (.ofAnswer ((s.lookUp sv d).2.linterAnswer sv d (s.lookUp sv d).1))).size := by
        rw [hpass, lintDocument_eq]
      have hretained := retained_of_linted hs hlinted
      rw [hpass] at hretained
      refine .single hspares ?_ ?_ ?_ hretained
      · rw [hverdict, store_lintDocument, settings_lookUp]
        exact SortedMap.get?_insert_self _ doc _
      · rw [hverdict, lintDocument_eq]
        exact SortedMap.get?_insert_self _ doc Phase.annotated
      · rw [hverdict]
        exact consulted_lintDocument sv doc d s

theorem outcome_runPass (sv : Services σ) (doc : DocumentId) (s : Session σ) :
    (s.runPass sv doc).1 = (s.verdict sv doc).outcome := by
  have hresult := runPass_result sv doc s
  generalize s.runPass sv doc = result at hresult ⊢
  cases hresult with
  | noDocument hdoc => rw [verdict_of_noDocument hdoc, Verdict.outcome]
  | unsupported hdoc hgrammar => rw [verdict_of_unsupported hdoc hgrammar, Verdict.outcome]
  | ignored hdoc hgrammar hpath hignored =>
      rw [verdict_of_ignored hdoc hgrammar hpath hignored, Verdict.outcome]
  | noConfig hdoc hgrammar hexcluded hconfig =>
      rw [verdict_of_noConfig hdoc hgrammar hexcluded hconfig, Verdict.outcome]
  | linted hdoc hgrammar hexcluded hconfig =>
      rw [verdict_of_linted hdoc hgrammar hexcluded hconfig, Verdict.outcome, lintDocument_eq,
        settings_lookUp]

/-! ### Several passes -/

/-- Different documents may be passed over one after the other. -/
theorem PassedOver.trans (h : PassedOver sv docs s t) (h' : PassedOver sv more t r) (hs : s.Consistent)
    (hdisjoint : docs.Disjoint more) (hverdict : ∀ d, t.verdict sv d = s.verdict sv d) :
    PassedOver sv (docs ++ more) s r where
  store d := by
    rw [h'.store, hverdict, h.store]
    by_cases hmore : d ∈ more
    · have hnot : d ∉ docs := fun hd => hdisjoint hd hmore
      simp [hmore, hnot]
    · simp [hmore]
  phases d := by
    rw [h'.phases, hverdict, h.phases]
    by_cases hmore : d ∈ more
    · have hnot : d ∉ docs := fun hd => hdisjoint hd hmore
      simp [hmore, hnot]
    · simp [hmore]
  consulted := by
    have hlater := h'.consulted
    simp only [hverdict] at hlater
    rw [List.flatMap_append]
    exact h.consulted.trans hlater
  retained d row g hanchor hrow := by
    refine h'.retained d row g (h.retained d row g hanchor ?_) hrow
    -- In between the row has issues: either the document has its turn only then, or it had it before.
    by_cases hmore : d ∈ more
    · have hnot : d ∉ docs := fun hd => hdisjoint hd hmore
      have hsame := h.store d
      rw [if_neg hnot] at hsame
      rw [Store.rows, Store.diagnostics, hsame]
      exact ((hs.shows d).rows row).mp (Option.isSome_of_eq_some hanchor)
    · have hsame := h'.store d
      rw [if_neg hmore] at hsame
      rw [Store.rows, Store.diagnostics, hsame] at hrow
      exact hrow

/-- Passing over the same documents in another order comes to the same. -/
theorem PassedOver.agree (h : PassedOver sv docs s t) (h' : PassedOver sv more s r)
    (hperm : docs.Perm more) : r.store = t.store ∧ r.phases = t.phases := by
  constructor
  · apply SortedMap.ext
    intro d
    rw [h'.store, h.store]
    simp only [hperm.mem_iff]
  · apply SortedMap.ext
    intro d
    rw [h'.phases, h.phases]
    simp only [hperm.mem_iff]

section Functional

variable {Good : σ → Prop}

theorem passAll_passedOver (hsv : sv.Functional Good) (hs : s.Consistent) (hgood : Good s.services)
    (hdocs : docs.Nodup) : PassedOver sv docs s (passAll sv docs s).2 := by
  induction docs generalizing s with
  | nil => exact .nil sv s
  | cons doc rest ih =>
      obtain ⟨hnot, hrest⟩ := List.nodup_cons.mp hdocs
      have hlater := hsv.good_runPass hgood doc
      exact (runPass_passedOver hs sv doc).trans (ih ((runPass_moves sv doc s).consistent hs) hlater hrest)
        hs (List.singleton_disjoint.mpr hnot)
        (hsv.verdict_eq hgood hlater (confined_runPass sv doc s).undisturbed)

theorem outcomes_passAll (hsv : sv.Functional Good) (hgood : Good s.services) (docs : List DocumentId) :
    (passAll sv docs s).1 = docs.map fun d => (d, (s.verdict sv d).outcome) := by
  have hmap : ∀ t, Good t.services → Undisturbed s t →
      (passAll sv docs t).1 = docs.map fun d => (d, (s.verdict sv d).outcome) := by
    induction docs with
    | nil => exact fun _ _ _ => rfl
    | cons doc rest ih =>
        intro t ht hsame
        have hrest := ih (t.runPass sv doc).2 (hsv.good_runPass ht doc)
          (hsame.trans (confined_runPass sv doc t).undisturbed)
        have hfirst : (t.runPass sv doc).1 = (s.verdict sv doc).outcome := by
          rw [outcome_runPass, hsv.verdict_eq hgood ht hsame]
        rw [List.map_cons, ← hrest, ← hfirst]
        rfl
  exact hmap s hgood (.refl s)

end Functional

end Session

end LintMargin
