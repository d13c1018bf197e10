import LintMargin.Session.Basic

/-!
# Events and commands

What a session does when something happens to a document, when time has passed, and when the user asks
for something. Edits and saves lead to a lint pass, scrolling to drawing and cursor moves to a new
status text, each after its own delay.
-/

namespace LintMargin.Session

universe u

variable {σ : Type u}

/-! ## Events -/

/-- A document was opened: listen to it and lint it soon. -/
def opened (doc : DocumentId) (now : Nat) (s : Session σ) : Session σ :=
  let s := s.registerTriggers doc
  let s := if s.phases.contains doc then s else s.setPhase doc .clean
  { s with lintDelay := s.lintDelay.schedule doc now }

/-- A document got the focus: lint it at once. -/
def activated (sv : Services σ) (doc : DocumentId) (s : Session σ) : Outcome × Session σ :=
  let s := if s.triggers.contains doc then s else s.registerTriggers doc
  let s := { s with lintDelay := s.lintDelay.cancel doc }
  let (outcome, s) := s.runPass sv doc
  (outcome, if outcome.isSkipped then s.updateStatus else s)

/-- The text changed, which is ignored while linting is bound to saving. -/
def edited (doc : DocumentId) (now : Nat) (s : Session σ) : Session σ :=
  if s.settings.validateOnlyOnSave then s
  else { s with lintDelay := s.lintDelay.schedule doc now }

def saved (doc : DocumentId) (now : Nat) (s : Session σ) : Session σ :=
  { s with lintDelay := s.lintDelay.schedule doc now }

def scrolled (doc : DocumentId) (now : Nat) (s : Session σ) : Session σ :=
  { s with renderDelay := s.renderDelay.schedule doc now }

def cursorMoved (_doc : DocumentId) (now : Nat) (s : Session σ) : Session σ :=
  { s with statusDelay := s.statusDelay.schedule () now }

/-- A document was closed: nothing is kept of it. -/
def closed (doc : DocumentId) (s : Session σ) : Session σ :=
  let s := s.releaseTriggers doc
  let s := { s with
    lintDelay := s.lintDelay.cancel doc
    renderDelay := s.renderDelay.cancel doc }
  let s := s.forgetDiagnostics doc
  { s with phases := s.phases.erase doc }.updateStatus

/-! ## Commands -/

/-- Lints the active document at once. -/
def lintNow (sv : Services σ) (s : Session σ) : Option Outcome × Session σ :=
  match s.editor.active with
  | none => (none, s)
  | some doc =>
    let (outcome, s) := { s with lintDelay := s.lintDelay.cancel doc }.runPass sv doc
    (some outcome, s)

/-- Takes over new settings, listens to all documents as they ask, and lints the active one. -/
def reconfigure (sv : Services σ) (settings : Settings) (s : Session σ) :
    Option Outcome × Session σ :=
  let s := { s with
    settings
    lintDelay := s.lintDelay.setDelay settings.delays.lint
    renderDelay := s.renderDelay.setDelay settings.delays.render
    statusDelay := s.statusDelay.setDelay settings.delays.status
    services := sv.forget s.services
    editor := s.editor.note .forgetConfigs }
  (s.triggers.keys.foldl (fun s doc => s.registerTriggers doc) s).lintNow sv

/-- Moves the cursor to the first issue of the next row that has any, from the row of the cursor on;
after the last such row comes the first one again. -/
def goToNext (s : Session σ) : Option Position × Session σ :=
  match s.editor.active with
  | none => (none, s)
  | some doc =>
    let row := match s.editor.cursors.get? doc with
      | some p => p.row
      | none => 0
    let diagnostics := s.store.diagnostics doc
    match (diagnostics.firstFrom row).or diagnostics.firstGroup with
    | none => (none, s)
    | some (_, group) =>
      let target := group.first.position
      (some target, { s with editor := s.editor.setCursor doc target }.updateStatus)

/-- Moves the cursor to the issue in the status bar, if it is about the active document. -/
def goToDisplayed (s : Session σ) : Option Position × Session σ :=
  match s.renderer.displayed with
  | none => (none, s)
  | some (doc, issue) =>
    if s.editor.active = some doc then
      (some issue.position, { s with editor := s.editor.setCursor doc issue.position })
    else (none, s)

/-! ## Time -/

/-- What a tick did. -/
structure TickReport where
  linted : List DocumentId
  rendered : List DocumentId
  statusUpdated : Bool
deriving DecidableEq

def TickReport.isEmpty (r : TickReport) : Bool :=
  r.linted.isEmpty && r.rendered.isEmpty && !r.statusUpdated

/-- Passes over several documents, one after another, with what each of them did. -/
def passAll (sv : Services σ) :
    List DocumentId → Session σ → List (DocumentId × Outcome) × Session σ
  | [], s => ([], s)
  | doc :: rest, s =>
    let (outcome, s) := s.runPass sv doc
    let (later, s) := passAll sv rest s
    ((doc, outcome) :: later, s)

/-- The documents that were linted in some passes. -/
def lintedIn (passes : List (DocumentId × Outcome)) : List DocumentId :=
  (passes.filter fun p => p.2.isLinted).map (·.1)

/-- Draws the documents whose drawing is due, except for those that were just linted. -/
def drawDue (now : Nat) (linted : List DocumentId) (s : Session σ) : List DocumentId × Session σ :=
  let (due, renderDelay) := s.renderDelay.takeDue now
  let rendered := due.filter fun doc => !linted.contains doc
  (rendered, rendered.foldl (fun s doc => s.render doc) { s with renderDelay })

/-- Brings the status bar up to date if that is due. -/
def refreshDue (now : Nat) (s : Session σ) : Bool × Session σ :=
  let (due, statusDelay) := s.statusDelay.takeDue now
  let s := { s with statusDelay }
  (!due.isEmpty, if due.isEmpty then s else s.updateStatus)

/-- What a tick does when its passes are over. -/
def finishTick (now : Nat) (passed : List (DocumentId × Outcome) × Session σ) :
    TickReport × Session σ :=
  let linted := lintedIn passed.1
  let (rendered, s) := passed.2.drawDue now linted
  let (statusUpdated, s) := s.refreshDue now
  (⟨linted, rendered, statusUpdated⟩, s)

/-- Does all the work that is due. A document that was linted is not drawn again. -/
def tick (sv : Services σ) (now : Nat) (s : Session σ) : TickReport × Session σ :=
  let (due, lintDelay) := s.lintDelay.takeDue now
  finishTick now (passAll sv due { s with lintDelay })

end LintMargin.Session
