import LintMargin.Config.Options
import LintMargin.Issue

/-!
# The editor

What an editor shows and knows, and what is asked of it. It hands out a new handle for every anchor,
tooltip and listener, and it keeps a journal of all requests made of it and of the services beside it,
in the order in which they came.

An anchor is bound to a row of a document and carries decorations; a tooltip hovers over the gutter of a
row; a listener waits for one kind of event of a document.
-/

namespace LintMargin

/-- The name the editor gives to something it was asked to make. -/
structure Handle where
  number : Nat
deriving DecidableEq, Inhabited

instance : Ranked Handle where
  rank h := h.number
  rank_injective {a b} h := by
    cases a
    cases b
    exact congrArg _ h

/-- What the editor knows about an open document. -/
structure Document where
  text : String
  /-- The file it was read from, if there is one. -/
  path : Option Path
  grammar : String
deriving DecidableEq, Inhabited

/-- The grammars that can be linted. -/
def isSupportedGrammar (scope : String) : Bool :=
  scope = "source.js" || scope = "source.jsx" || scope = "source.js.jsx"

/-- The grammars that hold JSX. -/
def isJsxGrammar (scope : String) : Bool := scope = "source.jsx" || scope = "source.js.jsx"

/-- Where a decoration is drawn. -/
inductive DecorationKind where
  | line
  | lineNumber
deriving DecidableEq

structure Decoration where
  kind : DecorationKind
  cssClass : String
deriving DecidableEq

namespace Decoration

def line : Decoration := ⟨.line, "hint-line"⟩

def lineNumber : Decoration := ⟨.lineNumber, "hint-line-number"⟩

end Decoration

inductive Placement where
  | top
  | bottom
deriving DecidableEq

structure Tooltip where
  row : Row
  text : String
  placement : Placement
  showDelay : Nat
deriving DecidableEq

/-- A tooltip below the gutter, which appears after 200 milliseconds. -/
def Tooltip.belowGutter (row : Row) (text : String) : Tooltip := ⟨row, text, .bottom, 200⟩

/-- The events of a document that can be listened to. -/
inductive DocumentEvent where
  | modified
  | saved
  | scrolled
  | cursorMoved
deriving DecidableEq

/-- Which linter is run. -/
inductive Flavor where
  | plain
  | jsx
deriving DecidableEq

/-- A request, with the handle it was answered with or is about. -/
inductive Call where
  | mark (doc : DocumentId) (row : Row) (anchor : Handle)
  | destroy (doc : DocumentId) (anchor : Handle)
  | decorate (doc : DocumentId) (anchor : Handle) (decoration : Decoration)
  | showTooltip (doc : DocumentId) (handle : Handle) (tooltip : Tooltip)
  | releaseTooltip (handle : Handle)
  | subscribe (doc : DocumentId) (handle : Handle) (event : DocumentEvent)
  | unsubscribe (handle : Handle)
  | setStatus (text : Option String)
  | setCursor (doc : DocumentId) (position : Position)
  | isIgnored (path : Path)
  | resolve (path : Path)
  | forgetConfigs
  | lint (flavor : Flavor) (source : String) (options : Members) (globals : Option Members)

/-- An anchor: the row it is on and its decorations, in the order in which they were attached. -/
structure Marker where
  doc : DocumentId
  row : Row
  decorations : List Decoration
deriving DecidableEq

/-- What an editor decides for itself. -/
structure Manner where
  /-- The name of each thing it makes, counted from 0. -/
  handle : Nat → Handle
  handle_inj : ∀ {m n : Nat}, handle m = handle n → m = n
  /-- The cursors after one of them was told where to go. -/
  land : SortedMap DocumentId Document → DocumentId → Position → SortedMap DocumentId Position →
    SortedMap DocumentId Position

/-- Names are numbers from 1 on, and a cursor goes where it is told to go. -/
def Manner.plain : Manner where
  handle n := ⟨n + 1⟩
  handle_inj h := Nat.succ.inj (congrArg Handle.number h)
  land _ doc p cursors := cursors.insert doc p

instance : Inhabited Manner := ⟨.plain⟩

structure Editor where
  manner : Manner
  documents : SortedMap DocumentId Document
  active : Option DocumentId
  cursors : SortedMap DocumentId Position
  markers : SortedMap Handle Marker
  tooltips : SortedMap Handle (DocumentId × Tooltip)
  listeners : SortedMap Handle (DocumentId × DocumentEvent)
  status : Option String
  /-- How many handles were handed out. -/
  issued : Nat
  journal : List Call

namespace Editor

/-- Nothing is open and nothing was asked. -/
def fresh (manner : Manner) (status : Option String) : Editor :=
  ⟨manner, ∅, none, ∅, ∅, ∅, ∅, status, 0, []⟩

def empty : Editor := fresh .plain none

instance : Inhabited Editor := ⟨empty⟩

def note (e : Editor) (c : Call) : Editor := { e with journal := e.journal ++ [c] }

/-! ## Requests -/

def freshHandle (e : Editor) : Handle := e.manner.handle e.issued

/-- A new anchor on a row. -/
def mark (e : Editor) (doc : DocumentId) (row : Row) : Handle × Editor :=
  let h := e.freshHandle
  (h, { e with
    markers := e.markers.insert h ⟨doc, row, []⟩
    issued := e.issued + 1 }.note (.mark doc row h))

/-- Takes an anchor away, and its decorations with it. -/
def destroy (e : Editor) (doc : DocumentId) (anchor : Handle) : Editor :=
  { e with markers := e.markers.erase anchor }.note (.destroy doc anchor)

def decorate (e : Editor) (doc : DocumentId) (anchor : Handle) (d : Decoration) : Editor :=
  { e with markers := e.markers.modify anchor fun m => { m with decorations := m.decorations ++ [d] } }.note
    (.decorate doc anchor d)

def showTooltip (e : Editor) (doc : DocumentId) (t : Tooltip) : Handle × Editor :=
  let h := e.freshHandle
  (h, { e with
    tooltips := e.tooltips.insert h (doc, t)
    issued := e.issued + 1 }.note (.showTooltip doc h t))

def releaseTooltip (e : Editor) (h : Handle) : Editor :=
  { e with tooltips := e.tooltips.erase h }.note (.releaseTooltip h)

def subscribe (e : Editor) (doc : DocumentId) (event : DocumentEvent) : Handle × Editor :=
  let h := e.freshHandle
  (h, { e with
    listeners := e.listeners.insert h (doc, event)
    issued := e.issued + 1 }.note (.subscribe doc h event))

def unsubscribe (e : Editor) (h : Handle) : Editor :=
  { e with listeners := e.listeners.erase h }.note (.unsubscribe h)

/-- Shows a text in the status bar, or clears it. -/
def setStatus (e : Editor) (text : Option String) : Editor :=
  { e with status := text }.note (.setStatus text)

def setCursor (e : Editor) (doc : DocumentId) (p : Position) : Editor :=
  { e with cursors := e.manner.land e.documents doc p e.cursors }.note (.setCursor doc p)

/-! ## What the user does -/

/-- Opens a document, or gives it other contents, and focuses it. -/
def openDocument (e : Editor) (doc : DocumentId) (d : Document) : Editor :=
  { e with documents := e.documents.insert doc d, active := some doc }

/-- Closes a document; its cursor is remembered. -/
def closeDocument (e : Editor) (doc : DocumentId) : Editor :=
  { e with
    documents := e.documents.erase doc
    active := if e.active = some doc then none else e.active }

/-- Changes the text of a document, if it is open. -/
def editText (e : Editor) (doc : DocumentId) (text : String) : Editor :=
  { e with documents := e.documents.modify doc fun d => { d with text } }

def focus (e : Editor) (doc : Option DocumentId) : Editor := { e with active := doc }

def moveCursor (e : Editor) (doc : DocumentId) (p : Position) : Editor :=
  { e with cursors := e.cursors.insert doc p }

end Editor

end LintMargin
