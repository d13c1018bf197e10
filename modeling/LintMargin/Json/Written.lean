import LintMargin.Json

/-!
# JSON as written

A text is first cut into tokens and then put together as a tree that keeps all members in written
order, and marks a number too great for a float and a string with an unpaired surrogate as having no
value. Whether such a leaf is an error depends on whether its value is asked for.

The tree is built by a machine that reads one token at a time and keeps the unfinished arrays and
objects on a stack, so nesting is not bounded. Main definitions: `Token.lex` and `Written.ofTokens?`.
-/

namespace LintMargin.Json

open Number

/-- A JSON text taken apart. -/
inductive Written where
  | null
  | bool (value : Bool)
  | number (value : Option Numeral)
  | string (value : Option String)
  | array (items : List Written)
  | object (members : List (Option String × Written))
deriving Inhabited

namespace Written

mutual

/-- The number of arrays and objects around the innermost value. -/
def depth : Written → Nat
  | .array items => itemsDepth items + 1
  | .object members => membersDepth members + 1
  | _ => 0

def itemsDepth : List Written → Nat
  | [] => 0
  | item :: rest => max (depth item) (itemsDepth rest)

def membersDepth : List (Option String × Written) → Nat
  | [] => 0
  | (_, value) :: rest => max (depth value) (membersDepth rest)

end

mutual

/-- The value of the text, if every leaf and every key has one. -/
def value? : Written → Option Json
  | .null => some .null
  | .bool b => some (.bool b)
  | .number n => n.map .number
  | .string s => s.map .string
  | .array items => (itemValues? items).map .array
  | .object members => (memberValues? members).map fun ms => .object (Members.ofList ms)

def itemValues? : List Written → Option (List Json)
  | [] => some []
  | item :: rest => do
    let v ← value? item
    let vs ← itemValues? rest
    return v :: vs

def memberValues? : List (Option String × Written) → Option (List (String × Json))
  | [] => some []
  | (key, item) :: rest => do
    let k ← key
    let v ← value? item
    let vs ← memberValues? rest
    return (k, v) :: vs

end

end Written

/-! ## Tokens -/

inductive Token where
  | openObject
  | closeObject
  | openArray
  | closeArray
  | colon
  | comma
  | string (value : Option String)
  /-- A value that is no string, and its text as a key where it can be one. -/
  | scalar (value : Written) (name : Option String)
  /-- A bare word, which can only be a key. -/
  | word (name : String)

namespace Token

def key? : Token → Option (Option String)
  | .string s => some s
  | .scalar _ name => name.map some
  | .word name => some (some name)
  | _ => none

/-- What stands at the start of a text, and how many characters it has beyond the first. -/
inductive Reading where
  | malformed
  | blank (more : Nat)
  | token (t : Token) (more : Nat)

/-- The tokens of a text, of which the first `pending` characters are already accounted for. -/
def lex (read : List Char → Reading) : Nat → List Char → Option (List Token)
  | _, [] => some []
  | pending + 1, _ :: rest => lex read pending rest
  | 0, c :: rest =>
    match read (c :: rest) with
    | .malformed => none
    | .blank more => lex read more rest
    | .token t more => (lex read more rest).map (t :: ·)

end Token

/-! ## Building the tree -/

namespace Written

/-- An array or object inside which a value is being read; earlier parts come last first. -/
inductive Frame where
  | array (before : List Written)
  | object (before : List (Option String × Written)) (key : Option String)

/-- What may come next. `first` tells that nothing, not even a comma, was read since the bracket. -/
inductive State where
  | start
  | item (first : Bool) (before : List Written) (outer : List Frame)
  | afterItem (before : List Written) (outer : List Frame)
  | key (first : Bool) (before : List (Option String × Written)) (outer : List Frame)
  | colon (before : List (Option String × Written)) (key : Option String) (outer : List Frame)
  | value (before : List (Option String × Written)) (key : Option String) (outer : List Frame)
  | afterMember (before : List (Option String × Written)) (outer : List Frame)
  | done (value : Written)

/-- A finished value takes its place in what surrounds it. -/
def finish (v : Written) : List Frame → State
  | [] => .done v
  | .array before :: outer => .afterItem (v :: before) outer
  | .object before key :: outer => .afterMember ((key, v) :: before) outer

/-- A token where a value is due. -/
def begin (outer : List Frame) : Token → Option State
  | .openArray => some (.item true [] outer)
  | .openObject => some (.key true [] outer)
  | .string s => some (finish (.string s) outer)
  | .scalar v _ => some (finish v outer)
  | _ => none

/-- One token. In a `lenient` text commas may be left out, and one may follow the last part. -/
def step (lenient : Bool) : State → Token → Option State
  | .start, t => begin [] t
  | .item first before outer, .closeArray =>
    if first || lenient then some (finish (.array before.reverse) outer) else none
  | .item _ before outer, t => begin (.array before :: outer) t
  | .afterItem before outer, .closeArray => some (finish (.array before.reverse) outer)
  | .afterItem before outer, .comma => some (.item false before outer)
  | .afterItem before outer, t => if lenient then begin (.array before :: outer) t else none
  | .key first before outer, .closeObject =>
    if first || lenient then some (finish (.object before.reverse) outer) else none
  | .key _ before outer, t => t.key?.map fun key => .colon before key outer
  | .colon before key outer, .colon => some (.value before key outer)
  | .colon .., _ => none
  | .value before key outer, t => begin (.object before key :: outer) t
  | .afterMember before outer, .closeObject => some (finish (.object before.reverse) outer)
  | .afterMember before outer, .comma => some (.key false before outer)
  | .afterMember before outer, t =>
    if lenient then t.key?.map fun key => .colon before key outer else none
  | .done _, _ => none

/-- The tree of a text that holds exactly one value. -/
def ofTokens? (lenient : Bool) (tokens : List Token) : Option Written :=
  match tokens.foldlM (step lenient) .start with
  | some (.done v) => some v
  | _ => none

end Written

end LintMargin.Json
