import LintMargin.Ignore.Glob.Depth
import LintMargin.Ignore.Glob.Meaning
import LintMargin.Path
import LintMargin.Text.Blank

/-!
# Ignore rules

An ignore file holds a glob a line. It speaks of the paths below its own directory, its root. A path is
judged by its own name first and then by each directory above it, up to the root; the first of these
that any glob matches decides, and there the last such glob.
-/

namespace LintMargin.Ignore

/-- One line of an ignore file. -/
structure Rule where
  shape : Shape
  /-- The rule asks for a name, which `..` is not. -/
  asksForName : Bool
  /-- The rule takes paths back that earlier lines ignore. -/
  keeps : Bool
  directoriesOnly : Bool

namespace Rule

/-- A glob without its marks: `!` in front keeps, `/` in front ties it to the root, `/` at the end
means directories only. -/
structure Marked where
  glob : List Char
  keeps : Bool
  anchored : Bool
  directoriesOnly : Bool

/-- The line without blanks at its end, unless the last of them is escaped. -/
def trimLine (line : List Char) : List Char :=
  if ['\\', ' '].isSuffixOf line then line else Text.trimEnd line

def marksInFront (line : List Char) : Marked :=
  match line with
  | '\\' :: '!' :: rest => ⟨'!' :: rest, false, false, false⟩
  | '\\' :: '#' :: rest => ⟨'#' :: rest, false, false, false⟩
  | '!' :: '/' :: rest => ⟨rest, true, true, false⟩
  | '!' :: rest => ⟨rest, true, false, false⟩
  | '/' :: rest => ⟨rest, false, true, false⟩
  | _ => ⟨line, false, false, false⟩

def marks (line : List Char) : Marked :=
  let m := marksInFront line
  match m.glob.reverse with
  | '/' :: '\\' :: before => { m with glob := before.reverse, directoriesOnly := true }
  | '/' :: before => { m with glob := before.reverse, directoriesOnly := true }
  | _ => m

/-- A glob that is not tied to the root and has no slash matches at any depth. -/
def atAnyDepth (m : Marked) : List Char :=
  if m.anchored || m.glob.contains '/' || m.glob = ['*', '*'] then m.glob
  else '*' :: '*' :: '/' :: m.glob

/-- A glob that ends in a double star matches what is inside a directory, not the directory. -/
def insideOnly (glob : List Char) : List Char :=
  if ['/', '*', '*'].isSuffixOf glob then glob ++ ['/', '*'] else glob

/-- The rule of a line that is not empty, unless its glob is malformed or too deep. -/
def ofLine? (line : List Char) : Option Rule := do
  let m := marks line
  let pieces ← Glob.parse? (insideOnly (atAnyDepth m))
  if Glob.depth pieces ≤ Glob.maxDepth then
    some ⟨Glob.shape pieces, Glob.asksForName pieces, m.keeps, m.directoriesOnly⟩
  else none

/-- Whether a path is spelled with `..` at its end. -/
def endsUpward (path : Path) : Bool := (Text.split '/' path.chars).getLast? = some ['.', '.']

/-- Whether the rule speaks of a path as it is given, below the root. -/
def covers (r : Rule) (path : Path) (isDirectory : Bool) : Bool :=
  r.shape.accepts (Text.Utf8.encode path.text) && (!r.directoriesOnly || isDirectory) &&
    !(r.asksForName && endsUpward path)

end Rule

/-- The rules of an ignore file and the directory they speak of. -/
structure Rules where
  root : Path
  rules : List Rule

namespace Rules

/-- The lines that hold a glob: not empty and no comment. Marks of byte order in front of the first
line do not count. -/
def globLines (text : List Char) : List (List Char) :=
  let lines := match Text.lines text with
    | first :: rest => first.dropWhile (· = '\ufeff') :: rest
    | [] => []
  (lines.filter fun line => line.head? ≠ some '#').filterMap fun line =>
    let line := Rule.trimLine line
    if line.isEmpty then none else some line

/-- The rules in the text of an ignore file, unless a glob is malformed or too deep. -/
def ofText? (root : Path) (text : List Char) : Option Rules :=
  ((globLines text).mapM Rule.ofLine?).map (⟨root, ·⟩)

/-- What the rules say of a path as it is given, below the root: ignored, kept, or nothing. -/
def verdict? (r : Rules) (path : Path) (isDirectory : Bool) : Option Bool :=
  (r.rules.reverse.find? (·.covers path isDirectory)).map (!·.keeps)

/-- The path from the root on, if both are spelled alike up to there. -/
def relative (r : Rules) (path : Path) : Path :=
  if r.root.chars.isPrefixOf path.chars then
    match path.chars.drop r.root.chars.length with
    | '/' :: rest => ⟨String.ofList rest⟩
    | rest => ⟨String.ofList rest⟩
  else path

/-- Whether the rules can be asked about a path. One that lies in the root and is not spelled from the
root on has no relative path, and asking any rule about it breaks the program off. -/
def canJudge (r : Rules) (path : Path) : Bool :=
  r.rules.isEmpty || !path.startsWith r.root || !(r.relative path).isAbsolute

/-- Whether a path is ignored; a path outside the root never is. -/
def isIgnored (r : Rules) (path : Path) : Bool :=
  if path.startsWith r.root then
    match (r.relative path).ancestors with
    | [] => false
    | self :: directories =>
      ((r.verdict? self false).or (directories.findSome? fun d => r.verdict? d true)).getD false
  else false

end Rules

end LintMargin.Ignore
