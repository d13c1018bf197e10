import LintMargin.Config.Settings
import LintMargin.Debouncer
import LintMargin.Linter.Pragma
import LintMargin.Renderer
import LintMargin.Services

/-!
# Sessions

A session holds the diagnostics of all open documents and keeps the editor in line with them. This
module has its state, the steps that several events share, and the lint pass.
-/

namespace LintMargin

universe u

/-- Where a document stands between and during passes. -/
inductive Phase where
  /-- Nothing is shown. -/
  | clean
  | linting
  /-- What the last pass found is shown. -/
  | annotated
deriving DecidableEq

inductive SkipReason where
  /-- The document is not open. -/
  | noDocument
  | unsupportedGrammar
  /-- No configuration was found, and the settings ask for one. -/
  | noConfig
deriving DecidableEq

/-- What a pass did. -/
inductive Outcome where
  | skipped (reason : SkipReason)
  /-- The file is excluded from linting. -/
  | ignored
  /-- The linter ran, and so many rows have issues now. -/
  | linted (rows : Nat)
deriving DecidableEq

namespace Outcome

def isSkipped : Outcome → Bool
  | .skipped _ => true
  | _ => false

def isLinted : Outcome → Bool
  | .linted _ => true
  | _ => false

end Outcome

structure Session (σ : Type u) where
  editor : Editor
  services : σ
  settings : Settings
  store : Store
  anchors : Anchors
  renderer : Renderer
  phases : SortedMap DocumentId Phase
  /-- The listeners of each document whose events are waited for. -/
  triggers : SortedMap DocumentId (SubscriptionGroup Handle)
  lintDelay : Debouncer DocumentId
  renderDelay : Debouncer DocumentId
  statusDelay : Debouncer Unit

namespace Session

variable {σ : Type u}

/-- A session that has seen nothing yet. -/
def start (editor : Editor) (services : σ) (settings : Settings) : Session σ where
  editor
  services
  settings
  store := ∅
  anchors := ∅
  renderer := .empty
  phases := ∅
  triggers := ∅
  lintDelay := .ofDelay settings.delays.lint
  renderDelay := .ofDelay settings.delays.render
  statusDelay := .ofDelay settings.delays.status

def phase? (s : Session σ) (doc : DocumentId) : Option Phase := s.phases.get? doc

def setPhase (s : Session σ) (doc : DocumentId) (p : Phase) : Session σ :=
  { s with phases := s.phases.insert doc p }

/-- When the next piece of work is due. -/
def nextDeadline (s : Session σ) : Option Nat :=
  ([s.lintDelay.nextDeadline, s.renderDelay.nextDeadline, s.statusDelay.nextDeadline].filterMap
    id).min?

/-! ## Shared steps -/

def updateStatus (s : Session σ) : Session σ :=
  let (renderer, editor) := s.renderer.updateStatus s.store s.editor
  { s with renderer, editor }

def render (s : Session σ) (doc : DocumentId) : Session σ :=
  let (renderer, anchors, editor) := s.renderer.render s.store s.anchors doc s.editor
  { s with renderer, anchors, editor }

/-- Takes everything away that is held and shown about the issues of a document. -/
def forgetDiagnostics (s : Session σ) (doc : DocumentId) : Session σ :=
  let (anchors, editor) := s.anchors.removeAll doc s.editor
  let (renderer, editor) := s.renderer.clearDocument doc editor
  { s with store := s.store.erase doc, anchors, renderer, editor }

/-- Stops listening to a document. -/
def releaseTriggers (s : Session σ) (doc : DocumentId) : Session σ :=
  let handles := SubscriptionGroup.released ((s.triggers.get? doc).getD [])
  { s with
    editor := handles.foldl (fun e h => e.unsubscribe h) s.editor
    triggers := s.triggers.erase doc }

/-- The events that the settings ask to listen to. -/
def wantedEvents (settings : Settings) : List DocumentEvent :=
  if settings.validateOnlyOnSave then [.saved, .scrolled, .cursorMoved]
  else [.modified, .saved, .scrolled, .cursorMoved]

/-- Listens to one more event of a document. -/
def listen (doc : DocumentId) (state : SubscriptionGroup Handle × Editor) (event : DocumentEvent) :
    SubscriptionGroup Handle × Editor :=
  let (handle, editor) := state.2.subscribe doc event
  (state.1.add (.live handle), editor)

/-- Listens to a document as the settings ask, and no longer as before. -/
def registerTriggers (s : Session σ) (doc : DocumentId) : Session σ :=
  let s := s.releaseTriggers doc
  let (group, editor) := (wantedEvents s.settings).foldl (listen doc) ([], s.editor)
  { s with editor, triggers := s.triggers.insert doc group }

/-! ## Asking the services -/

def askIgnored (sv : Services σ) (path : Path) (s : Session σ) : Bool × Session σ :=
  let (answer, services) := sv.isIgnored path s.services
  (answer, { s with services, editor := s.editor.note (.isIgnored path) })

def askConfig (sv : Services σ) (path : Path) (s : Session σ) : LintConfig × Session σ :=
  let (answer, services) := sv.resolve path s.services
  (answer, { s with services, editor := s.editor.note (.resolve path) })

/-- Runs a linter; if it fails, nothing is reported. -/
def askLinter (sv : Services σ) (flavor : Flavor) (source : String) (config : LintConfig)
    (s : Session σ) : Report × Session σ :=
  let (answer, services) := sv.lint flavor source config config.globals? s.services
  let report := match answer with
    | .ok report => report
    | .error _ => []
  (report, { s with
    services
    editor := s.editor.note (.lint flavor source config.options config.globals?) })

/-! ## The lint pass -/

/-- Which linter gets the document, and what it is given. -/
def prepare (settings : Settings) (d : Document) : Flavor × Pragma.Prepared :=
  if settings.supportLintingJsx then
    (.jsx, if isJsxGrammar d.grammar then Pragma.prepare d.text else .same d.text)
  else (.plain, .same d.text)

/-- Lints a document whose configuration is known, stores what was found and draws it. -/
def lintDocument (sv : Services σ) (doc : DocumentId) (d : Document) (config : LintConfig)
    (s : Session σ) : Outcome × Session σ :=
  let s := s.setPhase doc .linting
  let (flavor, prepared) := prepare s.settings d
  let (report, s) := s.askLinter sv flavor prepared.source config
  let diagnostics := (Report.moveUp prepared.addedLines report).aggregate
  let s := { s with store := s.store.insert doc diagnostics }
  (.linted diagnostics.size, (s.render doc).setPhase doc .annotated)

/-- Lints a document that is not ignored, unless it lacks a configuration that it has to have. -/
def lintConfigured (sv : Services σ) (doc : DocumentId) (d : Document) (s : Session σ) :
    Outcome × Session σ :=
  let (config, s) := match d.path with
    | some path => s.askConfig sv path
    | none => (.empty, s)
  if s.settings.onlyConfig && !config.isDiscovered then (.skipped .noConfig, s)
  else s.lintDocument sv doc d config

/-- One lint pass over a document. -/
def runPass (sv : Services σ) (doc : DocumentId) (s : Session σ) : Outcome × Session σ :=
  match s.editor.documents.get? doc with
  | none => (.skipped .noDocument, s)
  | some d =>
    if isSupportedGrammar d.grammar then
      let (ignored, s) := match d.path with
        | some path => s.askIgnored sv path
        | none => (false, s)
      if ignored then
        (.ignored, ((s.forgetDiagnostics doc).updateStatus).setPhase doc .clean)
      else s.lintConfigured sv doc d
    else (.skipped .unsupportedGrammar, s)

end Session

end LintMargin
