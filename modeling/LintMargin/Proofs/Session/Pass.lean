import LintMargin.Session.Events
import LintMargin.Proofs.SortedMap

/-!
# What a pass can do

`PassResult` lists the five ends of a lint pass with all that is known where each is reached, and
`runPass_result` says that there are no others. No later proof looks into `runPass` itself.
-/

namespace LintMargin

universe u

variable {σ : Type u}

/-- What was reported; an error counts as nothing. -/
def Report.ofAnswer : Except LintError Report → Report
  | .ok report => report
  | .error _ => []

/-- Questions about some files, and requests for linters, leave the services in states that pass the
test. -/
structure Services.Keeps (sv : Services σ) (About : Path → Prop) (Good : σ → Prop) : Prop where
  isIgnored : ∀ {path a}, About path → Good a → Good (sv.isIgnored path a).2
  resolve : ∀ {path a}, About path → Good a → Good (sv.resolve path a).2
  lint : ∀ {flavor source config globals a}, Good a → Good (sv.lint flavor source config globals a).2

namespace Session

/-- Whether the services exclude a document; one without a file is never excluded. -/
def isExcluded (sv : Services σ) (d : Document) (s : Session σ) : Bool :=
  match d.path with
  | some path => (sv.isIgnored path s.services).1
  | none => false

/-- The configuration of a document that is not excluded, and the session after looking it up: the
services were asked whether its file is ignored, and after that for its configuration. -/
def lookUp (sv : Services σ) (d : Document) (s : Session σ) : LintConfig × Session σ :=
  match d.path with
  | some path =>
    let (config, services) := sv.resolve path (sv.isIgnored path s.services).2
    (config, { s with services, editor := (s.editor.note (.isIgnored path)).note (.resolve path) })
  | none => (.empty, s)

/-- The program looks up configurations by asking the two questions one after the other. -/
theorem lookUp_of_path {sv : Services σ} {d : Document} {path : Path} (hpath : d.path = some path)
    (s : Session σ) : s.lookUp sv d = (s.askIgnored sv path).2.askConfig sv path := by
  rw [lookUp, hpath]
  rfl

/-- What the linter of a document answers. -/
def linterAnswer (sv : Services σ) (d : Document) (config : LintConfig) (s : Session σ) :
    Except LintError Report :=
  (sv.lint (prepare s.settings d).1 (prepare s.settings d).2.source config config.globals?
    s.services).1

/-- What a pass stores after a report: the issues by row, moved up past the lines that were put in front
of the text. -/
def diagnosticsOf (settings : Settings) (d : Document) (report : Report) : Diagnostics :=
  (Report.moveUp (prepare settings d).2.addedLines report).aggregate

/-- The linter has answered, and what it found is stored. -/
def stored (sv : Services σ) (doc : DocumentId) (d : Document) (config : LintConfig) (s : Session σ) :
    Session σ :=
  let asked := ((s.setPhase doc .linting).askLinter sv (prepare s.settings d).1
    (prepare s.settings d).2.source config).2
  { asked with
    store := s.store.insert doc
      (diagnosticsOf s.settings d (.ofAnswer (s.linterAnswer sv d config))) }

theorem lintDocument_eq (sv : Services σ) (doc : DocumentId) (d : Document) (config : LintConfig)
    (s : Session σ) :
    s.lintDocument sv doc d config =
      (.linted (diagnosticsOf s.settings d (.ofAnswer (s.linterAnswer sv d config))).size,
        ((s.stored sv doc d config).render doc).setPhase doc .annotated) :=
  rfl

theorem store_lintDocument (sv : Services σ) (doc : DocumentId) (d : Document) (config : LintConfig)
    (s : Session σ) :
    (s.lintDocument sv doc d config).2.store = s.store.insert doc
      (diagnosticsOf s.settings d (.ofAnswer (s.linterAnswer sv d config))) :=
  rfl

/-- The ends of a pass. -/
inductive PassResult (sv : Services σ) (doc : DocumentId) (s : Session σ) :
    Outcome × Session σ → Prop where
  | noDocument (hdoc : s.editor.documents.get? doc = none) :
      PassResult sv doc s (.skipped .noDocument, s)
  | unsupported {d : Document} (hdoc : s.editor.documents.get? doc = some d)
      (hgrammar : isSupportedGrammar d.grammar = false) :
      PassResult sv doc s (.skipped .unsupportedGrammar, s)
  | ignored {d : Document} {path : Path} (hdoc : s.editor.documents.get? doc = some d)
      (hgrammar : isSupportedGrammar d.grammar = true) (hpath : d.path = some path)
      (hexcluded : (sv.isIgnored path s.services).1 = true) :
      PassResult sv doc s (.ignored,
        ((((s.askIgnored sv path).2.forgetDiagnostics doc).updateStatus).setPhase doc .clean))
  | noConfig {d : Document} (hdoc : s.editor.documents.get? doc = some d)
      (hgrammar : isSupportedGrammar d.grammar = true) (hexcluded : s.isExcluded sv d = false)
      (hconfig : s.settings.onlyConfig = true ∧ (s.lookUp sv d).1.isDiscovered = false) :
      PassResult sv doc s (.skipped .noConfig, (s.lookUp sv d).2)
  | linted {d : Document} (hdoc : s.editor.documents.get? doc = some d)
      (hgrammar : isSupportedGrammar d.grammar = true) (hexcluded : s.isExcluded sv d = false)
      (hconfig : ¬ (s.settings.onlyConfig = true ∧ (s.lookUp sv d).1.isDiscovered = false)) :
      PassResult sv doc s ((s.lookUp sv d).2.lintDocument sv doc d (s.lookUp sv d).1)

theorem settings_lookUp (sv : Services σ) (d : Document) (s : Session σ) :
    (s.lookUp sv d).2.settings = s.settings := by
  unfold lookUp
  cases d.path <;> rfl

theorem runPass_result (sv : Services σ) (doc : DocumentId) (s : Session σ) :
    PassResult sv doc s (s.runPass sv doc) := by
  cases hdoc : s.editor.documents.get? doc with
  | none =>
      simp only [runPass, hdoc]
      exact .noDocument hdoc
  | some d =>
      cases hgrammar : isSupportedGrammar d.grammar with
      | false =>
          simp only [runPass, hdoc, hgrammar]
          exact .unsupported hdoc hgrammar
      | true =>
          by_cases hexcluded : s.isExcluded sv d = true
          · cases hpath : d.path with
            | none => simp [isExcluded, hpath] at hexcluded
            | some path =>
                simp only [isExcluded, hpath] at hexcluded
                simp only [runPass, hdoc, hgrammar, hpath, askIgnored, hexcluded, if_true]
                exact .ignored hdoc hgrammar hpath hexcluded
          · rw [Bool.not_eq_true] at hexcluded
            have hpass : s.runPass sv doc =
                if s.settings.onlyConfig && !(s.lookUp sv d).1.isDiscovered then
                  (.skipped .noConfig, (s.lookUp sv d).2)
                else (s.lookUp sv d).2.lintDocument sv doc d (s.lookUp sv d).1 := by
              rw [← settings_lookUp sv d s]
              cases hpath : d.path with
              | none =>
                  simp only [runPass, hdoc, hgrammar, hpath, lintConfigured, lookUp, if_true,
                    Bool.false_eq_true, if_false]
              | some path =>
                  simp only [isExcluded, hpath] at hexcluded
                  have hnot : (s.askIgnored sv path).1 = false := hexcluded
                  simp only [runPass, hdoc, hgrammar, hpath, hnot, lintConfigured, lookUp_of_path hpath,
                    if_true, Bool.false_eq_true, if_false]
            rw [hpass]
            split
            · next hconfig => exact .noConfig hdoc hgrammar hexcluded (by simpa using hconfig)
            · next hconfig => exact .linted hdoc hgrammar hexcluded (by simpa using hconfig)

/-- A pass that lints its document got that far. -/
theorem exists_lintDocument_of_linted {sv : Services σ} {doc : DocumentId} {s : Session σ} {rows : Nat}
    (hlinted : (s.runPass sv doc).1 = .linted rows) :
    ∃ d, s.editor.documents.get? doc = some d ∧ isSupportedGrammar d.grammar = true ∧
      s.isExcluded sv d = false ∧
      ¬ (s.settings.onlyConfig = true ∧ (s.lookUp sv d).1.isDiscovered = false) ∧
      s.runPass sv doc = (s.lookUp sv d).2.lintDocument sv doc d (s.lookUp sv d).1 := by
  have hresult := runPass_result sv doc s
  generalize s.runPass sv doc = result at hlinted hresult ⊢
  cases hresult with
  | noDocument => cases hlinted
  | unsupported => cases hlinted
  | ignored => cases hlinted
  | noConfig => cases hlinted
  | @linted d hdoc hgrammar hexcluded hconfig => exact ⟨d, hdoc, hgrammar, hexcluded, hconfig, rfl⟩

/-! ### What a pass depends on -/

theorem isExcluded_congr (sv : Services σ) (d : Document) {s t : Session σ}
    (hservices : t.services = s.services) : t.isExcluded sv d = s.isExcluded sv d := by
  unfold isExcluded
  cases d.path with
  | none => rfl
  | some path => simp only [hservices]

theorem lookUp_congr (sv : Services σ) (d : Document) {s t : Session σ}
    (hservices : t.services = s.services) :
    (t.lookUp sv d).1 = (s.lookUp sv d).1 ∧
      (t.lookUp sv d).2.services = (s.lookUp sv d).2.services := by
  unfold lookUp
  cases d.path with
  | none => exact ⟨rfl, hservices⟩
  | some path => simp only [hservices, and_self]

theorem runPass_eq_lintDocument {sv : Services σ} {doc : DocumentId} {s : Session σ} {d : Document}
    (hdoc : s.editor.documents.get? doc = some d) (hgrammar : isSupportedGrammar d.grammar = true)
    (hexcluded : s.isExcluded sv d = false)
    (hconfig : ¬ (s.settings.onlyConfig = true ∧ (s.lookUp sv d).1.isDiscovered = false)) :
    s.runPass sv doc = (s.lookUp sv d).2.lintDocument sv doc d (s.lookUp sv d).1 := by
  have hresult := runPass_result sv doc s
  generalize s.runPass sv doc = result at hresult ⊢
  cases hresult with
  | noDocument hnone => simp [hdoc] at hnone
  | @unsupported d' hsome hnot =>
      obtain rfl : d = d' := Option.some.inj (hdoc.symm.trans hsome)
      simp [hgrammar] at hnot
  | @ignored d' path hsome _ hpath hignored =>
      obtain rfl : d = d' := Option.some.inj (hdoc.symm.trans hsome)
      simp [isExcluded, hpath, hignored] at hexcluded
  | @noConfig d' hsome _ _ hmissing =>
      obtain rfl : d = d' := Option.some.inj (hdoc.symm.trans hsome)
      exact absurd hmissing hconfig
  | @linted d' hsome =>
      obtain rfl : d = d' := Option.some.inj (hdoc.symm.trans hsome)
      rfl

/-- A pass over the same document with the same settings and services lints it with the same result. -/
theorem runPass_congr {sv : Services σ} {doc : DocumentId} {s t : Session σ} {rows : Nat}
    (hdocuments : t.editor.documents.get? doc = s.editor.documents.get? doc)
    (hsettings : t.settings = s.settings) (hservices : t.services = s.services)
    (hlinted : (s.runPass sv doc).1 = .linted rows) :
    (t.runPass sv doc).1 = .linted rows ∧
      (t.runPass sv doc).2.store.get? doc = (s.runPass sv doc).2.store.get? doc := by
  obtain ⟨d, hdoc, hgrammar, hexcluded, hconfig, hpass⟩ := exists_lintDocument_of_linted hlinted
  obtain ⟨hanswer, hstate⟩ := lookUp_congr sv d hservices
  have hagain : t.runPass sv doc = (t.lookUp sv d).2.lintDocument sv doc d (t.lookUp sv d).1 :=
    runPass_eq_lintDocument (hdocuments.trans hdoc) hgrammar
      ((isExcluded_congr sv d hservices).trans hexcluded) (by rwa [hsettings, hanswer])
  have hfound : diagnosticsOf (t.lookUp sv d).2.settings d
      (.ofAnswer ((t.lookUp sv d).2.linterAnswer sv d (t.lookUp sv d).1)) =
      diagnosticsOf (s.lookUp sv d).2.settings d
        (.ofAnswer ((s.lookUp sv d).2.linterAnswer sv d (s.lookUp sv d).1)) := by
    simp only [linterAnswer, settings_lookUp, hsettings, hanswer, hstate]
  rw [hpass] at hlinted ⊢
  rw [hagain]
  constructor
  · rw [lintDocument_eq, hfound]
    exact hlinted
  · rw [store_lintDocument, store_lintDocument, hfound, SortedMap.get?_insert_self,
      SortedMap.get?_insert_self]

/-! ### What a pass leaves of the services -/

theorem keeps_lookUp {sv : Services σ} {About : Path → Prop} {Good : σ → Prop} {s : Session σ}
    (hsv : sv.Keeps About Good) {d : Document} (habout : ∀ p, d.path = some p → About p)
    (hs : Good s.services) : Good (s.lookUp sv d).2.services := by
  unfold lookUp
  cases hpath : d.path with
  | none => exact hs
  | some path => exact hsv.resolve (habout path hpath) (hsv.isIgnored (habout path hpath) hs)

theorem keeps_runPass {sv : Services σ} {About : Path → Prop} {Good : σ → Prop} {s : Session σ}
    (hsv : sv.Keeps About Good) {doc : DocumentId}
    (habout : ∀ d p, s.editor.documents.get? doc = some d → d.path = some p → About p)
    (hs : Good s.services) : Good (s.runPass sv doc).2.services := by
  have hresult := runPass_result sv doc s
  generalize s.runPass sv doc = result at hresult ⊢
  cases hresult with
  | noDocument => exact hs
  | unsupported => exact hs
  | @ignored d path hdoc _ hpath => exact hsv.isIgnored (habout d path hdoc hpath) hs
  | @noConfig d hdoc => exact keeps_lookUp hsv (habout d · hdoc) hs
  | @linted d hdoc => exact hsv.lint (keeps_lookUp hsv (habout d · hdoc) hs)

end Session

end LintMargin
