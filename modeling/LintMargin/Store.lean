import LintMargin.Diagnostics

/-!
# The diagnostics of all documents

A document has an entry from its first lint pass on, an empty one if nothing was found.
-/

namespace LintMargin

abbrev Store := SortedMap DocumentId Diagnostics

namespace Store

/-- The diagnostics of a document; a document without an entry has none. -/
def diagnostics (s : Store) (doc : DocumentId) : Diagnostics := (s.get? doc).getD ∅

def rows (s : Store) (doc : DocumentId) : List Row := (s.diagnostics doc).keys

def group? (s : Store) (doc : DocumentId) (row : Row) : Option LineGroup :=
  (s.diagnostics doc).get? row

def firstGroup (s : Store) (doc : DocumentId) : Option (Row × LineGroup) :=
  (s.diagnostics doc).firstGroup

end Store

end LintMargin
