import LintMargin.Editor
import LintMargin.Text.Lines

/-!
# The terminal as an editor

Files are opened without an editor around them: the grammar goes by the file's extension, and what an
editor would show is printed. The printout has a line for each tooltip, marked where the row has a
decoration in the gutter, then the entries of the tooltip, and last the status text.
-/

namespace LintMargin.Terminal

/-- The grammar of a file. -/
def grammarFor (path : Path) : String :=
  match path.extension? with
  | some ['j', 's'] | some ['m', 'j', 's'] | some ['c', 'j', 's'] => "source.js"
  | some ['j', 's', 'x'] => "source.jsx"
  | _ => "text.plain"

/-- Opens a file and focuses it. -/
def openFile (e : Editor) (doc : DocumentId) (path : Path) (text : String) : Editor :=
  e.openDocument doc ⟨text, some path, grammarFor path⟩

/-- Closes a file and forgets its cursor. -/
def closeFile (e : Editor) (doc : DocumentId) : Editor :=
  let e := e.closeDocument doc
  { e with cursors := e.cursors.erase doc }

/-- Whether a listener waits for an event of a document. -/
def isSubscribed (e : Editor) (doc : DocumentId) (event : DocumentEvent) : Bool :=
  e.listeners.values.any fun l => l = (doc, event)

/-- The tooltips of a document, in the order in which they were made. -/
def tooltipsOf (e : Editor) (doc : DocumentId) : List Tooltip :=
  (e.tooltips.values.filter fun t => t.1 = doc).map (·.2)

/-- Whether a row has a decoration in the gutter. -/
def hasGutterMark (e : Editor) (doc : DocumentId) (row : Row) : Bool :=
  e.markers.values.any fun m =>
    m.doc = doc && m.row = row && m.decorations.any fun d => d.kind = .lineNumber

/-- A number right-aligned in five columns. -/
def lineNumber (n : Nat) : String :=
  let digits := Nat.repr n
  String.ofList (List.replicate (5 - digits.length) ' ') ++ digits

/-- The lines about one tooltip. -/
def entryText (e : Editor) (doc : DocumentId) (source : List (List Char)) (t : Tooltip) : String :=
  let mark := if hasGutterMark e doc t.row then ">" else " "
  let sourceLine := String.ofList (source[t.row.toNat]?.getD [])
  let entries := (Text.lines t.text.toList).map fun entry => "        " ++ String.ofList entry ++ "\n"
  mark ++ lineNumber (t.row.toNat + 1) ++ " | " ++ sourceLine ++ "\n" ++ String.join entries

/-- What is shown about a document; nothing if it is not open. -/
def report (e : Editor) (doc : DocumentId) : String :=
  match e.documents.get? doc with
  | none => ""
  | some d =>
    let path := (d.path.getD ⟨""⟩).text
    let source := Text.lines d.text.toList
    let entries := (tooltipsOf e doc).map (entryText e doc source)
    let status := match e.status with
      | some text => "status: " ++ text ++ "\n"
      | none => ""
    path ++ ":\n" ++ String.join entries ++ status

end LintMargin.Terminal
