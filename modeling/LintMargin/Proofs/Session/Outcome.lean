import LintMargin.Proofs.Config.Memory
import LintMargin.Proofs.Session.SourceLines
import LintMargin.Proofs.Session.StatusBar
import LintMargin.Proofs.Session.Verdict

/-!
# The outcome of a pass

Four reasons, one after the other, may keep a pass from linting its document. Three of them leave all as it
was, up to what the services remember of the questions they were asked; a document that is excluded is
dropped. Else one linter is asked once, and what it reports takes the place of what was there. A linter
that fails is as good as one that has nothing to report.
-/

namespace LintMargin

universe u

variable {σ : Type u}

/-! ### Linters that fail -/

/-- Services whose linters report nothing where they used to fail. -/
def Services.lenient (sv : Services σ) : Services σ :=
  { sv with
    lint := fun flavor source config globals a =>
      let (answer, after) := sv.lint flavor source config globals a
      (.ok (.ofAnswer answer), after) }

namespace Session

variable {s t : Session σ} {doc : DocumentId} {d : Document}

theorem askLinter_lenient (sv : Services σ) (flavor : Flavor) (source : String) (config : LintConfig)
    (s : Session σ) :
    s.askLinter sv.lenient flavor source config = s.askLinter sv flavor source config := by
  simp only [askLinter, Services.lenient]
  cases (sv.lint flavor source config config.globals? s.services).1 <;> rfl

theorem runPass_lenient (sv : Services σ) (doc : DocumentId) (s : Session σ) :
    s.runPass sv.lenient doc = s.runPass sv doc := by
  have hlint : ∀ d (r : Session σ), r.lintConfigured sv.lenient doc d = r.lintConfigured sv doc d := by
    intro d r
    simp only [lintConfigured, lintDocument, askLinter_lenient]
    rfl
  simp only [runPass, hlint]
  rfl

theorem passAll_lenient (sv : Services σ) (docs : List DocumentId) (s : Session σ) :
    passAll sv.lenient docs s = passAll sv docs s := by
  induction docs generalizing s with
  | nil => rfl
  | cons doc rest ih => simp only [passAll, runPass_lenient, ih]

theorem act_lenient (sv : Services σ) (s : Session σ) (a : Act σ) : s.act sv.lenient a = s.act sv a := by
  cases a with
  | activated doc => simp only [act, activated, runPass_lenient]
  | passed doc => simp only [act, runPass_lenient]
  | askedToLint => simp only [act, lintNow, runPass_lenient]
  | reconfigured settings =>
      simp only [act, reconfigure, lintNow, runPass_lenient]
      rfl
  | ticked now => simp only [act, tick, passAll_lenient]
  | _ => rfl

/-- Nothing that a session ever does tells a failure from an empty report. -/
theorem run_lenient (sv : Services σ) (s : Session σ) (acts : List (Act σ)) :
    s.run sv.lenient acts = s.run sv acts := by
  induction acts generalizing s with
  | nil => rw [run_nil, run_nil]
  | cons a rest ih =>
      rw [run, List.foldl_cons, act_lenient]
      exact ih _

/-! ### Passes that are skipped -/

/-- The services were asked about a document, and that is all. -/
def inquired (sv : Services σ) (d : Document) (s : Session σ) : Session σ :=
  { s with
    services := match d.path with
      | some path => (sv.resolve path (sv.isIgnored path s.services).2).2
      | none => s.services
    editor.journal := s.editor.journal ++ lookUps d }

theorem lookUp_snd (sv : Services σ) (d : Document) (s : Session σ) :
    (s.lookUp sv d).2 = s.inquired sv d := by
  unfold lookUp inquired lookUps
  cases d.path with
  | none => simp
  | some path => simp [Editor.note]

/-- A loader that is asked about a document forgets nothing. -/
theorem grown_inquired (t : FileTree) (run : Runner) (programs : LinterPrograms) (d : Document)
    (s : Session Loader) : s.services.Grown (s.inquired (.ofFiles t run programs) d).services := by
  unfold inquired
  cases d.path with
  | none => exact .refl _
  | some path =>
      exact (Loader.grown_isIgnored t path s.services).trans (Loader.grown_resolve t path _)

/-! ### Passes over excluded documents -/

/-- No linter was asked, and nothing of the document is held or shown any more. Decorations go with their
anchors. -/
structure Dropped (doc : DocumentId) (s t : Session σ) : Prop where
  consulted : Editor.Consulted [] s.editor t.editor
  store : t.store.get? doc = none
  anchors : t.anchors.get? doc = none
  tooltips : t.renderer.tooltips.get? doc = none
  liveAnchors : t.editor.liveAnchors doc = []
  liveTooltips : t.editor.liveTooltips doc = []
  phase : t.phase? doc = some .clean
  posted : t.Posted

theorem Consistent.liveAnchors_eq_nil (hs : s.Consistent) (hanchors : s.anchors.get? doc = none) :
    s.editor.liveAnchors doc = [] := by
  have hperm := hs.liveAnchors_perm doc
  rw [Anchors.ofDocument, hanchors] at hperm
  exact hperm.eq_nil

theorem dropped_of_ignored {sv : Services σ} (hs : s.Consistent) {path : Path} :
    Dropped doc s
      ((((s.askIgnored sv path).2.forgetDiagnostics doc).updateStatus).setPhase doc .clean) := by
  have hforgotten : ((s.askIgnored sv path).2.forgetDiagnostics doc).Consistent :=
    (hs.move (.aside (aside_askIgnored sv path s))).forgetDiagnostics doc
  have hstore : (s.store.erase doc).get? doc = none := SortedMap.get?_erase_self s.store doc
  have hanchors : (s.anchors.erase doc).get? doc = none := SortedMap.get?_erase_self s.anchors doc
  exact {
    consulted := consulted_forgetDiagnostics sv path doc s
    store := hstore
    anchors := hanchors
    tooltips := SortedMap.get?_erase_self s.renderer.tooltips doc
    liveAnchors := hforgotten.liveAnchors_eq_nil hanchors
    liveTooltips := hforgotten.liveTooltips_eq_nil hstore
    phase := SortedMap.get?_insert_self _ doc Phase.clean
    posted := (posted_updateStatus _).setPhase doc .clean }

/-! ### Passes that lint -/

/-- A linter was asked once, and its findings are stored and shown in place of what was there. -/
structure Replaced (doc : DocumentId) (found : Diagnostics) (request : Call) (s t : Session σ) : Prop where
  consulted : Editor.Consulted [request] s.editor t.editor
  store : t.store = s.store.insert doc found
  anchors : t.anchors.rows doc = found.keys
  seen : ∀ row, t.editor.seenOn doc row = found.wantedOn row
  phase : t.phase? doc = some .annotated
  posted : t.Posted

theorem prepare_fst (settings : Settings) (d : Document) :
    (prepare settings d).1 = if settings.supportLintingJsx then .jsx else .plain := by
  unfold prepare
  split <;> rfl

theorem linterAnswer_lookUp (sv : Services σ) (d : Document) (config : LintConfig) (s : Session σ) :
    (s.lookUp sv d).2.linterAnswer sv d config =
      (sv.lint (prepare s.settings d).1 (prepare s.settings d).2.source config config.globals?
        (s.inquired sv d).services).1 := by
  rw [linterAnswer, settings_lookUp, lookUp_snd]

theorem services_lintDocument (sv : Services σ) (doc : DocumentId) (d : Document) (s : Session σ) :
    let config := (s.lookUp sv d).1
    ((s.lookUp sv d).2.lintDocument sv doc d config).2.services =
      (sv.lint (prepare s.settings d).1 (prepare s.settings d).2.source config config.globals?
        (s.inquired sv d).services).2 := by
  rw [← settings_lookUp sv d s, ← lookUp_snd]
  rfl

theorem replaced_of_runPass {sv : Services σ} (hs : s.Consistent)
    (hpass : s.runPass sv doc = (s.lookUp sv d).2.lintDocument sv doc d (s.lookUp sv d).1) :
    let config := (s.lookUp sv d).1
    let answer := (s.lookUp sv d).2.linterAnswer sv d config
    Replaced doc (diagnosticsOf s.settings d (.ofAnswer answer)) (lintCall s.settings d config) s
      (s.runPass sv doc).2 := by
  intro config answer
  have ht : (s.runPass sv doc).2.Consistent := (runPass_moves sv doc s).consistent hs
  have hstore : (s.runPass sv doc).2.store =
      s.store.insert doc (diagnosticsOf s.settings d (.ofAnswer answer)) := by
    rw [hpass, store_lintDocument, settings_lookUp, (aside_lookUp sv d s).store]
  have hdiagnostics : (s.runPass sv doc).2.store.diagnostics doc =
      diagnosticsOf s.settings d (.ofAnswer answer) := by
    rw [hstore, Store.diagnostics_insert_self]
  have hlinted : (s.runPass sv doc).1.isSkipped = false := by rw [hpass, lintDocument_eq]; rfl
  constructor
  case consulted =>
      rw [hpass]
      exact consulted_lintDocument sv doc d s
  case store => exact hstore
  case anchors => rw [ht.rows_eq, Store.rows, hdiagnostics]
  case seen => exact fun row => by rw [ht.seenOn_eq, hdiagnostics]
  case phase =>
      rw [hpass, lintDocument_eq]
      exact SortedMap.get?_insert_self _ doc Phase.annotated
  case posted => exact posted_runPass hlinted

/-! ### All ends of a pass -/

/-- After any run, a pass over any document ends in the first of these ways that applies: skipped with
nothing done but questions to the services, dropped, or linted with one request. A linter that fails is
taken for one that reports nothing, in this pass and in all that follow. -/
theorem pass_outcome {sv : Services σ} {s : Session σ} (hs : Reachable sv s) (doc : DocumentId) :
    s.runPass sv.lenient doc = s.runPass sv doc ∧
    (∀ acts, s.run sv.lenient acts = s.run sv acts) ∧
    (∀ files run programs d (r : Session Loader),
      r.services.Grown (r.inquired (.ofFiles files run programs) d).services) ∧
    match s.editor.documents.get? doc with
    | none => s.runPass sv doc = (.skipped .noDocument, s)
    | some d =>
      let config := (s.lookUp sv d).1
      let t := (s.runPass sv doc).2
      if isSupportedGrammar d.grammar = false then
        s.runPass sv doc = (.skipped .unsupportedGrammar, s)
      else if s.isExcluded sv d = true then
        (s.runPass sv doc).1 = .ignored ∧ Dropped doc s t
      else if s.settings.onlyConfig = true ∧ config.isDiscovered = false then
        s.runPass sv doc = (.skipped .noConfig, s.inquired sv d)
      else
        let flavor := if s.settings.supportLintingJsx then Flavor.jsx else Flavor.plain
        let seen := if s.settings.supportLintingJsx ∧ isJsxGrammar d.grammar then
          Pragma.prepare d.text else .same d.text
        let asked := sv.lint flavor seen.source config config.globals? (s.inquired sv d).services
        let found := (Report.moveUp seen.addedLines (.ofAnswer asked.1)).aggregate
        (s.runPass sv doc).1 = .linted found.size ∧ t.services = asked.2 ∧
          Replaced doc found (.lint flavor seen.source config.options config.globals?) s t ∧
          ∀ cause, asked.1 = .error cause → found = ∅ := by
  refine ⟨runPass_lenient sv doc s, run_lenient sv s, grown_inquired, ?_⟩
  have hresult := runPass_result sv doc s
  generalize hpass : s.runPass sv doc = result at hresult
  cases hresult with
  | noDocument hdoc => simp only [hdoc]
  | unsupported hdoc hgrammar => simp only [hdoc, hgrammar, if_true]
  | @ignored d path hdoc hgrammar hpath hexcluded =>
      have hexcludes : s.isExcluded sv d = true := by rw [isExcluded, hpath]; exact hexcluded
      simp only [hdoc, hgrammar, Bool.true_eq_false, if_false, hexcludes, if_true, true_and]
      exact dropped_of_ignored hs.consistent
  | @noConfig d hdoc hgrammar hexcluded hconfig =>
      simp only [hdoc, hgrammar, Bool.true_eq_false, Bool.false_eq_true, if_false, hexcluded,
        hconfig, and_self, if_true, lookUp_snd]
  | @linted d hdoc hgrammar hexcluded hconfig =>
      simp only [hdoc, hgrammar, Bool.true_eq_false, Bool.false_eq_true, if_false, hexcluded,
        if_neg hconfig]
      have hreplaced := replaced_of_runPass hs.consistent hpass
      rw [hpass] at hreplaced
      rw [← prepare_fst s.settings d, ← prepare_snd, ← linterAnswer_lookUp]
      refine ⟨?_, services_lintDocument sv doc d s, hreplaced, fun cause hanswer => ?_⟩
      · rw [lintDocument_eq, settings_lookUp]
        rfl
      · rw [hanswer]
        rfl

theorem pass_outcome_shifting :
    Reachable .reporting shifting ∧ (shifting.runPass .reporting ⟨7⟩).1 = .linted 2 ∧
      ∃ found, found.size = 2 ∧ Replaced ⟨7⟩ found (.lint .plain "a\nb\nc\nd" [] none) shifting
        (shifting.runPass .reporting ⟨7⟩).2 := by
  have hreachable : Reachable .reporting shifting := ⟨.plain, none, [], {}, _, rfl⟩
  have hlinted : (shifting.runPass .reporting ⟨7⟩).1 = .linted 2 := by decide
  obtain ⟨-, -, -, hlaw⟩ := pass_outcome hreachable ⟨7⟩
  have hdoc : shifting.editor.documents.get? ⟨7⟩ = some ⟨"a\nb\nc\nd", none, "source.js"⟩ := by decide
  rw [hdoc] at hlaw
  obtain ⟨houtcome, -, hreplaced, -⟩ := hlaw
  exact ⟨hreachable, hlinted, _, Outcome.linted.inj (houtcome.symm.trans hlinted), hreplaced⟩

end Session

end LintMargin
