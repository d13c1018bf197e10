import LintMargin.Text.Blank

/-!
# The JSX pragma

A linter that knows JSX reads a text as JSX if a block comment in front of the first token mentions
`@jsx`. A text without such a comment is given one, on a line of its own in front.
-/

namespace LintMargin.Pragma

def line : String := "/** @jsx React.DOM */"

/-- What a block comment has to mention. -/
def mention : List Char := ['@', 'j', 's', 'x']

def containsMention : List Char → Bool
  | [] => false
  | c :: rest => mention.isPrefixOf (c :: rest) || containsMention rest

/-- Where a reader of the text in front of the first token stands. -/
inductive Place where
  /-- Between comments. -/
  | outside
  /-- After a slash between comments. -/
  | slash
  | lineComment
  /-- In a block comment; its text so far, last character first. -/
  | blockComment (before : List Char)

/-- Whether a comment declares the pragma, for a reader that stands in some place. -/
def declaredFrom : Place → List Char → Bool
  | _, [] => false
  | .outside, c :: rest =>
    if Text.isBlank c then declaredFrom .outside rest
    else if c = '/' then declaredFrom .slash rest
    else false
  | .slash, c :: rest =>
    if c = '*' then declaredFrom (.blockComment []) rest
    else if c = '/' then declaredFrom .lineComment rest
    else false
  | .lineComment, c :: rest => declaredFrom (if c = '\n' then .outside else .lineComment) rest
  | .blockComment before, c :: rest =>
    match c, before with
    | '/', '*' :: text => containsMention text.reverse || declaredFrom .outside rest
    | _, _ => declaredFrom (.blockComment (c :: before)) rest

def isDeclared (source : String) : Bool := declaredFrom .outside source.toList

/-- A text to be linted and the number of lines that were put in front of it. -/
structure Prepared where
  source : String
  addedLines : UInt32
deriving DecidableEq

/-- The text as it is. -/
def Prepared.same (source : String) : Prepared := ⟨source, 0⟩

def prepare (source : String) : Prepared :=
  if isDeclared source then .same source else ⟨line ++ "\n" ++ source, 1⟩

end LintMargin.Pragma
