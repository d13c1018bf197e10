import LintMargin.Anchors
import LintMargin.Store
import LintMargin.Subscription

/-!
# Drawing diagnostics

Anchors and their decorations last from one drawing to the next; tooltips are replaced every time. The
status bar shows an issue of the active document: the first one on the row of the cursor if that row has
any, else the first one of the document.
-/

namespace LintMargin

structure Renderer where
  /-- The tooltips of each document that has any. -/
  tooltips : SortedMap DocumentId (SubscriptionGroup Handle)
  /-- The issue in the status bar and its document. -/
  displayed : Option (DocumentId × Issue)

namespace Renderer

def empty : Renderer := ⟨∅, none⟩

instance : Inhabited Renderer := ⟨empty⟩

def tooltipGroup (r : Renderer) (doc : DocumentId) : SubscriptionGroup Handle :=
  (r.tooltips.get? doc).getD []

/-- Releases some tooltips, one after another. -/
def releaseAll (handles : List Handle) (e : Editor) : Editor :=
  handles.foldl (fun e h => e.releaseTooltip h) e

/-- The issue that belongs into the status bar. -/
def choice (store : Store) (e : Editor) : Option (DocumentId × Issue) :=
  e.active.bind fun doc =>
    let diagnostics := store.diagnostics doc
    let onCursorRow := (e.cursors.get? doc).bind fun p => diagnostics.get? p.row
    (onCursorRow.or (diagnostics.firstGroup.map (·.2))).map fun group => (doc, group.first)

/-- Brings the status bar up to date. -/
def updateStatus (r : Renderer) (store : Store) (e : Editor) : Renderer × Editor :=
  let shown := choice store e
  ({ r with displayed := shown }, e.setStatus (shown.map fun s => s.2.statusText))

/-- Draws one group: an anchor with its decorations, if the row has none yet, and a tooltip. -/
def drawGroup (doc : DocumentId) (state : SubscriptionGroup Handle × Anchors × Editor)
    (entry : Row × LineGroup) : SubscriptionGroup Handle × Anchors × Editor :=
  let (tooltips, anchors, e) := state
  let (row, group) := entry
  let (anchor, isNew, anchors, e) := anchors.create doc row e
  let e := if isNew then (e.decorate doc anchor .line).decorate doc anchor .lineNumber else e
  let (tooltip, e) := e.showTooltip doc (.belowGutter row group.tooltipText)
  (tooltips.add (.live tooltip), anchors, e)

/-- Makes the margin of a document show what the store holds for it: anchors that are no longer wanted go
first, then the tooltips, then each row gets what it needs, from top to bottom. -/
def draw (r : Renderer) (store : Store) (anchors : Anchors) (doc : DocumentId) (e : Editor) :
    Renderer × Anchors × Editor :=
  let (_, anchors, e) := anchors.reconcile doc (store.rows doc) e
  let e := releaseAll (r.tooltipGroup doc).released e
  let (tooltips, anchors, e) := (store.diagnostics doc).entries.foldl (drawGroup doc) ([], anchors, e)
  ({ r with
      tooltips := if tooltips.isEmpty then r.tooltips.erase doc else r.tooltips.insert doc tooltips },
    anchors, e)

/-- Draws a document, and brings the status bar up to date. -/
def render (r : Renderer) (store : Store) (anchors : Anchors) (doc : DocumentId) (e : Editor) :
    Renderer × Anchors × Editor :=
  let (r, anchors, e) := r.draw store anchors doc e
  let (r, e) := r.updateStatus store e
  (r, anchors, e)

/-- Releases the tooltips of a document and forgets its issue in the status bar. -/
def clearDocument (r : Renderer) (doc : DocumentId) (e : Editor) : Renderer × Editor :=
  ({ tooltips := r.tooltips.erase doc
     displayed := r.displayed.filter fun shown => shown.1 ≠ doc },
    releaseAll (r.tooltipGroup doc).released e)

end Renderer

end LintMargin
