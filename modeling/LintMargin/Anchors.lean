import LintMargin.Editor

/-!
# Anchors

For every document the anchors it has, by row; no document is listed without an anchor. An anchor
stays as long as its row has issues, so that the editor does not redraw what has not changed.
-/

namespace LintMargin

abbrev Anchors := SortedMap DocumentId (SortedMap Row Handle)

namespace Anchors

/-- The anchors of a document. -/
def ofDocument (a : Anchors) (doc : DocumentId) : SortedMap Row Handle := (a.get? doc).getD ∅

def anchor? (a : Anchors) (doc : DocumentId) (row : Row) : Option Handle :=
  (a.ofDocument doc).get? row

def rows (a : Anchors) (doc : DocumentId) : List Row := (a.ofDocument doc).keys

/-- Destroys some anchors of a document, one after another. -/
def destroyAll (doc : DocumentId) (handles : List Handle) (e : Editor) : Editor :=
  handles.foldl (fun e h => e.destroy doc h) e

/-- Destroys the anchors on rows that are not among the given ones, from top to bottom, and tells how
many there were. -/
def reconcile (a : Anchors) (doc : DocumentId) (rows : List Row) (e : Editor) :
    Nat × Anchors × Editor :=
  match a.get? doc with
  | none => (0, a, e)
  | some held =>
    let stale := held.filter fun row _ => !rows.contains row
    let kept := held.filter fun row _ => rows.contains row
    (stale.size, if kept.isEmpty then a.erase doc else a.insert doc kept,
      destroyAll doc stale.values e)

/-- The anchor on a row, a new one if there is none yet, and whether it is new. -/
def create (a : Anchors) (doc : DocumentId) (row : Row) (e : Editor) :
    Handle × Bool × Anchors × Editor :=
  match a.anchor? doc row with
  | some h => (h, false, a, e)
  | none =>
    let (h, e) := e.mark doc row
    (h, true, a.insert doc ((a.ofDocument doc).insert row h), e)

/-- Destroys all anchors of a document, from top to bottom. -/
def removeAll (a : Anchors) (doc : DocumentId) (e : Editor) : Anchors × Editor :=
  (a.erase doc, destroyAll doc (a.ofDocument doc).values e)

end Anchors

end LintMargin
