import LintMargin.Path
import LintMargin.Text.Utf8

/-!
# Files as a value

A file tree says what each absolute place holds; a place is the list of names that leads to it from the
root. Paths are followed name by name, and `..` leads up from the directory that was reached.
-/

namespace LintMargin

inductive Node where
  | directory
  | file (octets : List UInt8)
deriving DecidableEq

/-- Names from the root. -/
abbrev Place := List (List Char)

/-- Why a file cannot be read or a program not be run. -/
inductive IoError where
  | notFound
  | permissionDenied
  | notDirectory
  | isDirectory
  | nameTooLong
  /-- A path holds the character U+0000. -/
  | nulInPath
  /-- The name of a program holds the character U+0000. -/
  | nulInProgram
  | notText
deriving DecidableEq

def IoError.message : IoError → String
  | .notFound => "No such file or directory (os error 2)"
  | .permissionDenied => "Permission denied (os error 13)"
  | .notDirectory => "Not a directory (os error 20)"
  | .isDirectory => "Is a directory (os error 21)"
  | .nameTooLong => "File name too long (os error 36)"
  | .nulInPath => "file name contained an unexpected NUL byte"
  | .nulInProgram => "nul byte found in provided data"
  | .notText => "stream did not contain valid UTF-8"

/-- What the places below the root hold, and the place that relative paths start from. -/
structure FileTree where
  below : Place → Option Node
  workingDirectory : Place

namespace FileTree

def holds (t : FileTree) (place : Place) : Option Node :=
  if place = [] then some .directory else t.below place

/-- How many octets a name may have. -/
def longestName : Nat := 255

/-- How many octets a path may have. -/
def longestPath : Nat := 4095

/-- Follows pieces of a path from a place. Each piece, an empty one too, asks for a directory. -/
def follow (t : FileTree) (place : Place) : List (List Char) → Except IoError Place
  | [] => .ok place
  | piece :: rest =>
    match t.holds place with
    | none => .error .notFound
    | some (.file _) => .error .notDirectory
    | some .directory =>
      if Path.isVoid piece then t.follow place rest
      else if piece = ['.', '.'] then t.follow place.dropLast rest
      else if longestName < (String.ofList piece).utf8ByteSize then .error .nameTooLong
      else if (t.holds (place ++ [piece])).isSome then t.follow (place ++ [piece]) rest
      else .error .notFound

/-- The place that a path leads to, if it holds something. -/
def locate (t : FileTree) (p : Path) : Except IoError Place :=
  if p.chars.contains '\x00' then .error .nulInPath
  else if p.chars.isEmpty then .error .notFound
  else if longestPath < p.text.utf8ByteSize then .error .nameTooLong
  else t.follow (if p.isAbsolute then [] else t.workingDirectory) (Text.split '/' p.chars)

def node (t : FileTree) (p : Path) : Except IoError Node := do
  match t.holds (← t.locate p) with
  | some n => .ok n
  | none => .error .notFound

def exists? (t : FileTree) (p : Path) : Bool :=
  match t.node p with
  | .ok _ => true
  | .error _ => false

def isFile (t : FileTree) (p : Path) : Bool :=
  match t.node p with
  | .ok (.file _) => true
  | _ => false

def readOctets (t : FileTree) (p : Path) : Except IoError (List UInt8) := do
  match ← t.node p with
  | .file octets => .ok octets
  | .directory => .error .isDirectory

def readText (t : FileTree) (p : Path) : Except IoError (List Char) := do
  match Text.Utf8.decode (← t.readOctets p) with
  | some cs => .ok cs
  | none => .error .notText

/-- The working directory as a path. -/
def workingPath (t : FileTree) : Path :=
  ⟨String.ofList ('/' :: Text.join ['/'] t.workingDirectory)⟩

/-- The path from the root. -/
def absolute? (t : FileTree) (p : Path) : Option Path := p.absolute? t.workingPath

/-! ## Changes -/

/-- No file but the working directory, which exists. -/
def bare (workingDirectory : Place) : FileTree where
  below place := if place.isPrefixOf workingDirectory then some .directory else none
  workingDirectory

/-- The place a path names when `..` takes back the name before it. -/
def placeOf (t : FileTree) (p : Path) : Place :=
  (Text.split '/' p.chars).foldl (fun place piece =>
    if Path.isVoid piece then place
    else if piece = ['.', '.'] then place.dropLast
    else place ++ [piece]) (if p.isAbsolute then [] else t.workingDirectory)

/-- Puts a node in a place, and directories in all places above that are empty. -/
def put (t : FileTree) (place : Place) (n : Node) : FileTree :=
  { t with below := fun q =>
      if q = place then some n
      else match t.below q with
        | some m => some m
        | none => if q.isPrefixOf place then some .directory else none }

/-- Empties a place and everything below it. -/
def clear (t : FileTree) (place : Place) : FileTree :=
  { t with below := fun q => if place.isPrefixOf q then none else t.below q }

def write (t : FileTree) (p : Path) (n : Node) : FileTree := t.put (t.placeOf p) n

def remove (t : FileTree) (p : Path) : FileTree := t.clear (t.placeOf p)

end FileTree

end LintMargin
