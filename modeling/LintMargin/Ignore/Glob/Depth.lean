import LintMargin.Ignore.Glob.Octets

/-!
# How deep globs are nested

Braces may be nested only so far. A glob is measured as the tree it stands for: a sequence of two or more
parts is a level around them, and so are a pair of braces, the choice in it if it has two or more
alternatives, a class, the class's list if it has two or more ranges, and a repetition. Silent pieces are
no part of the tree.
-/

namespace LintMargin.Ignore.Glob

/-- The level of a list around its items, if it has two or more. -/
def listLevel (items : Nat) : Nat := if 2 ≤ items then 1 else 0

/-- How many parts of a sequence the piece is: one for each octet of a character. -/
def partCount (p : Piece) : Nat :=
  match p with
  | .char c => (charOctets c).length
  | .trailingTree => 2
  | .choice _ => if isSilent p then 0 else 1
  | _ => 1

mutual

/-- The levels of one piece. -/
def pieceDepth : Piece → Nat
  | .char _ => 0
  | .one => 1
  | .run => 2
  | .oneOf _ ranges => 1 + listLevel (classRanges ranges).length
  | .leadingTree => 4
  | .innerTree => 4
  | .trailingTree => 1
  | .choice alternatives =>
    if allSilent alternatives then 0
    else 1 + listLevel (alternatives.filter (!isSilentList ·)).length + choiceDepth alternatives

/-- The levels of the deepest alternative. -/
def choiceDepth : List (List Piece) → Nat
  | [] => 0
  | pieces :: rest =>
    max (listLevel (pieces.map partCount).sum + listDepth pieces) (choiceDepth rest)

/-- The levels of the deepest piece. -/
def listDepth : List Piece → Nat
  | [] => 0
  | p :: rest => max (pieceDepth p) (listDepth rest)

end

/-- The levels of a whole glob, the one around everything included. -/
def depth (pieces : List Piece) : Nat := 1 + listDepth pieces

/-- How deep a glob may be. -/
def maxDepth : Nat := 250

end LintMargin.Ignore.Glob
