import LintMargin.Text.Lines

/-!
# Paths

A path is kept as it was spelled. Its components leave out repeated slashes, a slash at the end and
`.` anywhere but in front; two spellings with the same components name the same path. Nothing here
looks at files, so `..` is a component like others.
-/

namespace LintMargin

/-- A path as spelled. -/
structure Path where
  text : String
deriving DecidableEq, Inhabited

namespace Path

inductive Component where
  | root
  | current
  | parent
  | name (s : List Char)
deriving DecidableEq

def chars (p : Path) : List Char := p.text.toList

def isAbsolute (p : Path) : Bool := p.chars.head? = some '/'

/-- The part that cannot be left out: a slash, or a `.` in front of a relative path. -/
def head (cs : List Char) : List Char :=
  match cs with
  | '/' :: _ => ['/']
  | ['.'] => ['.']
  | '.' :: '/' :: _ => ['.']
  | _ => []

/-- What lies between the slashes after the head. -/
def pieces (cs : List Char) : List (List Char) := Text.split '/' (cs.drop (head cs).length)

/-- Pieces that name no component. -/
def isVoid (piece : List Char) : Bool := piece = [] || piece = ['.']

def ofPiece (piece : List Char) : Component := if piece = ['.', '.'] then .parent else .name piece

/-- What a path names, whatever its spelling. -/
def components (p : Path) : List Component :=
  let front : List Component := match head p.chars with
    | ['/'] => [.root]
    | ['.'] => [.current]
    | _ => []
  front ++ ((pieces p.chars).filter (!isVoid ·)).map ofPiece

/-- The path up to its last component; a root and the empty path have none. -/
def parent? (p : Path) : Option Path :=
  let front := head p.chars
  match (pieces p.chars).reverse.dropWhile isVoid with
  | _ :: before =>
    let kept := (before.dropWhile isVoid).reverse
    some ⟨String.ofList (front ++ Text.join ['/'] kept)⟩
  | [] => if front = ['.'] then some ⟨""⟩ else none

/-- Another path below this one; an absolute path stands for itself. -/
def join (base : Path) (below : String) : Path :=
  if below.toList.head? = some '/' then ⟨below⟩
  else
    match base.chars.getLast? with
    | none => ⟨below⟩
    | some '/' => ⟨base.text ++ below⟩
    | some _ => ⟨base.text ++ "/" ++ below⟩

/-- The path, its parent, the parent's parent and so on; a path has fewer parents than characters. -/
def ancestors (p : Path) : List Path := go (p.chars.length + 1) p
where
  go : Nat → Path → List Path
    | 0, _ => []
    | n + 1, p => p :: match p.parent? with
      | some q => go n q
      | none => []

/-- Whether the components of `base` come first among those of the path. -/
def startsWith (p base : Path) : Bool := base.components.isPrefixOf p.components

/-- The last component, if it is a name. -/
def fileName? (p : Path) : Option (List Char) :=
  match p.components.getLast? with
  | some (.name s) => some s
  | _ => none

/-- What follows the last dot of the name, if something stands before that dot. -/
def extension? (p : Path) : Option (List Char) := do
  let name ← p.fileName?
  let after := name.reverse.takeWhile (· ≠ '.')
  if after.length + 1 < name.length then some after.reverse else none

/-- The path from the root, for a given working directory; dots and repeated slashes are dropped,
`..` is not, a slash at the end is kept, and two slashes in front are not taken for one. The empty path
has no such form. -/
def absolute? (p workingDirectory : Path) : Option Path :=
  let cs := p.chars
  if cs.isEmpty then none
  else
    let names := (Text.split '/' cs).filter (!isVoid ·)
    let start : Path := match cs with
      | '/' :: '/' :: '/' :: _ => ⟨"/"⟩
      | '/' :: '/' :: _ => ⟨"//"⟩
      | '/' :: _ => ⟨"/"⟩
      | _ => workingDirectory
    let whole := names.foldl (fun acc name => acc.join (String.ofList name)) start
    some (if cs.getLast? = some '/' then whole.join "" else whole)

end Path

end LintMargin
