import LintMargin.Ignore.Glob.Octets
import LintMargin.Ignore.Shape

/-!
# What globs mean

A glob is read as a shape of whole paths. A class may match a slash, which `?` and `*` never do.
-/

namespace LintMargin.Ignore.Glob

/-- The slash between two names. -/
def slashShape : Shape := .one (.only OctetClass.slash)

/-- Any directories, with the slash after them. -/
def directories : Shape := .seq (.run .any) slashShape

mutual

def pieceShape : Piece → Shape
  | .char c => .literal (charOctets c)
  | .one => .one .notSlash
  | .run => .run .notSlash
  | .oneOf negated ranges => .one ⟨negated, classRanges ranges⟩
  | .leadingTree => .either (.either .empty slashShape) directories
  | .innerTree => .either slashShape (.seq slashShape directories)
  | .trailingTree => .seq slashShape (.run .any)
  | .choice alternatives => if allSilent alternatives then .empty else choiceShape alternatives

def choiceShape : List (List Piece) → Shape
  | [] => .nothing
  | pieces :: rest =>
    if isSilentList pieces then choiceShape rest else .either (listShape pieces) (choiceShape rest)

def listShape : List Piece → Shape
  | [] => .empty
  | p :: rest => .seq (pieceShape p) (listShape rest)

end

/-- The paths that a glob matches; a double star alone matches all. -/
def shape : List Piece → Shape
  | [.leadingTree] => .run .any
  | pieces => listShape pieces

/-! ## Names -/

def isPlain : Piece → Bool
  | .char _ => true
  | _ => false

def isChar (c : Char) : Piece → Bool
  | .char d => d = c
  | _ => false

/-- Whether a glob asks for a name that ends in a dot. Plain text asks for a path instead, and behind a
double star it does so if it has a slash. -/
def asksForName (pieces : List Piece) : Bool :=
  let asksForPath := match pieces with
    | .leadingTree :: rest => rest.all isPlain && rest.any (isChar '/')
    | _ => pieces.all isPlain
  pieces.getLast?.any (isChar '.') && !asksForPath

end LintMargin.Ignore.Glob
