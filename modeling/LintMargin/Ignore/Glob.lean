/-!
# Globs

A glob is a list of pieces. `?` and `*` stay inside one name; `**` between slashes stands for any number
of directories; braces hold alternatives; brackets hold a class. A bracket that is never closed is an
ordinary character, and so are all brackets after it.
-/

namespace LintMargin.Ignore

inductive Piece where
  | char (c : Char)
  /-- `?` -/
  | one
  /-- `*` -/
  | run
  | oneOf (negated : Bool) (ranges : List (Char × Char))
  /-- `**` at the start: nothing, or any directories. -/
  | leadingTree
  /-- `**` between two slashes, both included. -/
  | innerTree
  /-- `**` after a slash at the end, the slash included. -/
  | trailingTree
  | choice (alternatives : List (List Piece))
deriving Inhabited

namespace Glob

/-! ## Classes -/

inductive ClassReading where
  /-- No bracket closes the class. -/
  | unclosed
  /-- A range ends before it starts. -/
  | inverted
  /-- The class, and the characters it takes after the opening bracket. -/
  | closed (negated : Bool) (ranges : List (Char × Char)) (length : Nat)

/-- The inside of a class. `ranges` holds the ranges so far, last one first, and `isOpen` tells that a
dash waits for the end of the last of them. -/
def readRanges (negated : Bool) (length : Nat) (first isOpen : Bool) (ranges : List (Char × Char)) :
    List Char → ClassReading
  | [] => .unclosed
  | c :: rest =>
    if c = ']' ∧ !first then
      .closed negated (if isOpen then ('-', '-') :: ranges else ranges).reverse (length + 1)
    else if c = '-' ∧ !first ∧ !isOpen then
      readRanges negated (length + 1) false true ranges rest
    else
      match isOpen, ranges with
      | true, (low, _) :: before =>
        if c < low then .inverted
        else readRanges negated (length + 1) false false ((low, c) :: before) rest
      | _, _ => readRanges negated (length + 1) false false ((c, c) :: ranges) rest

def readClass : List Char → ClassReading
  | '!' :: rest => readRanges true 1 true false [] rest
  | '^' :: rest => readRanges true 1 true false [] rest
  | cs => readRanges false 0 true false [] cs

/-! ## Parsing -/

/-- The alternatives of one brace, finished ones last first, and the pieces of the current one, last
first. -/
structure Level where
  finished : List (List Piece)
  current : List Piece

/-- The innermost level, the ones around it, and whether brackets have become ordinary. -/
structure State where
  level : Level
  outer : List Level
  plainBrackets : Bool

namespace State

def start : State := ⟨⟨[], []⟩, [], false⟩

def push (s : State) (p : Piece) : State :=
  { s with level := { s.level with current := p :: s.level.current } }

def inBraces (s : State) : Bool := !s.outer.isEmpty

/-- The double star takes the place of the slash before it, or joins an earlier double star. -/
def replaceLast (s : State) (p : Piece) : State :=
  let current := match s.level.current with
    | .leadingTree :: rest => .leadingTree :: rest
    | .trailingTree :: rest => .trailingTree :: rest
    | _ :: rest => p :: rest
    | [] => [p]
  { s with level := { s.level with current } }

/-- A star, with the character before it and the text after it: the new state and the number of
further characters taken. -/
def star (s : State) (previous : Option Char) (rest : List Char) : State × Nat :=
  match rest with
  | '*' :: more =>
    let two := ((s.push .run).push .run, 1)
    if s.level.current.isEmpty then
      match more with
      | [] => (s.push .leadingTree, 1)
      | '/' :: _ => (s.push .leadingTree, 2)
      | _ => two
    else if previous ≠ some '/' ∧ !(s.inBraces ∧ (previous = some ',' ∨ previous = some '{')) then two
    else
      match more with
      | [] => (s.replaceLast .trailingTree, 1)
      | c :: _ =>
        if s.inBraces ∧ (c = ',' ∨ c = '}') then (s.replaceLast .trailingTree, 1)
        else if c = '/' then (s.replaceLast .innerTree, 2)
        else two
  | _ => (s.push .run, 0)

def openBrace (s : State) : State :=
  { s with level := ⟨[], []⟩, outer := s.level :: s.outer }

def closeBrace (s : State) : Option State :=
  match s.outer with
  | [] => none
  | around :: outer =>
    let alternatives := (s.level.current.reverse :: s.level.finished).reverse
    some ({ s with level := around, outer }.push (.choice alternatives))

def comma (s : State) : State :=
  if s.inBraces then { s with level := ⟨s.level.current.reverse :: s.level.finished, []⟩ }
  else s.push (.char ',')

/-- An opening bracket before the given text. -/
def bracket (s : State) (rest : List Char) : Option (State × Nat) :=
  if s.plainBrackets then some (s.push (.char '['), 0)
  else
    match readClass rest with
    | .unclosed => some ({ s with plainBrackets := true }.push (.char '['), 0)
    | .inverted => none
    | .closed negated ranges length => some (s.push (.oneOf negated ranges), length)

/-- One character in the midst of a glob: the new state and the number of further ones taken. -/
def next (s : State) (previous : Option Char) (c : Char) (rest : List Char) : Option (State × Nat) :=
  match c with
  | '?' => some (s.push .one, 0)
  | '*' => some (s.star previous rest)
  | '[' => s.bracket rest
  | '{' => some (s.openBrace, 0)
  | '}' => s.closeBrace.map (·, 0)
  | ',' => some (s.comma, 0)
  | '\\' => rest.head?.map fun e => (s.push (.char e), 1)
  | c => some (s.push (.char c), 0)

end State

/-- Reads a glob of which the first `pending` characters are already taken. -/
def parseFrom (s : State) (pending : Nat) (previous : Option Char) : List Char → Option State
  | [] => some s
  | c :: rest =>
    match pending with
    | n + 1 => parseFrom s n (some c) rest
    | 0 =>
      match s.next previous c rest with
      | some (s, taken) => parseFrom s taken (some c) rest
      | none => none

/-- The pieces of a glob, unless braces do not balance, a range is inverted or a backslash comes
last. -/
def parse? (cs : List Char) : Option (List Piece) :=
  match parseFrom .start 0 none cs with
  | some s => if s.inBraces then none else some s.level.current.reverse
  | none => none

end Glob

end LintMargin.Ignore
