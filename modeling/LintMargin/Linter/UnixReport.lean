import LintMargin.Diagnostics
import LintMargin.Text.Blank
import LintMargin.Text.Digits
import LintMargin.Text.Lines

/-!
# Reports in the `unix` format

A line reads `<file>:<line>:<character>: <reason>`, with the issue's code in parentheses at the end if
there is one. Other lines, such as a summary, are placeholders; blank lines are nothing.
-/

namespace LintMargin.UnixReport

/-- The text before the first colon and after it. -/
def cutColon : List Char → Option (List Char × List Char)
  | [] => none
  | c :: rest =>
    if c = ':' then some ([], rest)
    else (cutColon rest).map fun (before, after) => (c :: before, after)

/-- A letter for the kind of issue and one or more digits. -/
def isCode : List Char → Bool
  | kind :: digits =>
    (kind = 'E' || kind = 'W' || kind = 'I') && !digits.isEmpty && digits.all Char.isDigit
  | [] => false

/-- For a text written backwards, what comes after the last ` (` and what comes before it. -/
def cutOpening : List Char → Option (List Char × List Char)
  | '(' :: ' ' :: before => some ([], before)
  | c :: rest => (cutOpening rest).map fun (inside, before) => (c :: inside, before)
  | [] => none

/-- The reason and the code of a message that ends in a code in parentheses. -/
def splitCode (message : List Char) : Option (List Char × List Char) :=
  match message.reverse with
  | ')' :: body =>
    match cutOpening body with
    | some (inside, before) =>
      if isCode inside.reverse then some (before.reverse, inside.reverse) else none
    | none => none
  | _ => none

def issueOf (line character : UInt32) (message : List Char) : Issue :=
  match splitCode message with
  | some (reason, code) =>
    ⟨line, character, String.ofList reason, some (String.ofList code)⟩
  | none => ⟨line, character, String.ofList message, none⟩

def parseChars (cs : List Char) : Option Issue := do
  let (_, rest) ← cutColon cs
  let (line, rest) ← cutColon rest
  let (character, message) ← cutColon rest
  let line ← Text.readWord32 (Text.trim line)
  let character ← Text.readWord32 (Text.trim character)
  let message := Text.trim message
  if message.isEmpty then none else some (issueOf line character message)

/-- The issue that a line reports. -/
def parseLine (line : String) : Option Issue := parseChars line.toList

/-- What a report says, line by line. -/
def parse (report : String) : Report :=
  (((Text.lines report.toList).map Text.trimEnd).filter (· ≠ [])).map parseChars

/-- An issue as a line of a report on a file. -/
def renderLine (file : String) (i : Issue) : String :=
  let code := match i.code with
    | some code => " (" ++ code ++ ")"
    | none => ""
  file ++ ":" ++ decimal i.line ++ ":" ++ decimal i.character ++ ": " ++ i.reason ++ code

end LintMargin.UnixReport
