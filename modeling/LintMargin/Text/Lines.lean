/-!
# Lines

A line ends at a newline, and a carriage return right before the newline belongs to the line end.
What follows the last newline is a line too, unless it is empty.
-/

namespace LintMargin.Text

/-- The line whose characters, last one first, stand before a newline. -/
def closeLine : List Char → List Char
  | '\r' :: before => before.reverse
  | before => before.reverse

/-- The lines of a text that continues a line already read, last character first. -/
def linesFrom (before : List Char) : List Char → List (List Char)
  | [] => if before.isEmpty then [] else [before.reverse]
  | c :: rest =>
    if c = '\n' then closeLine before :: linesFrom [] rest else linesFrom (c :: before) rest

def lines (cs : List Char) : List (List Char) := linesFrom [] cs

/-- The parts between the separators: one more than there are separators. -/
def split (separator : Char) : List Char → List (List Char)
  | [] => [[]]
  | c :: rest =>
    match split separator rest with
    | [] => [[c]]
    | part :: parts => if c = separator then [] :: part :: parts else (c :: part) :: parts

/-- The texts with the separator between each two. -/
def join (separator : List Char) : List (List Char) → List Char
  | [] => []
  | [part] => part
  | part :: next :: parts => part ++ separator ++ join separator (next :: parts)

end LintMargin.Text
