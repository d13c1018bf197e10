import LintMargin.Json.Written
import LintMargin.Json.Quoted

/-!
# Strict JSON

The grammar of RFC 8259, with no mark of byte order before it. `read?` also asks that every leaf has a
value and that nothing is nested deeper than 127 levels; `written?` asks for the grammar alone.
-/

namespace LintMargin.Json.Strict

open Number

def maxDepth : Nat := 127

def quotedRules : Quoted.Rules where
  quote := '"'
  escape c := if c = '"' then some c else Quoted.commonEscape c
  raw c := 0x20 ≤ c.toNat

/-- Digits at the start, as numbers. -/
def digits (cs : List Char) : List Nat := (cs.takeWhile Char.isDigit).filterMap Text.digitValue?

/-- A point and one or more digits, if there is a point, and how many characters these are. -/
def fraction? : List Char → Option (List Nat × Nat)
  | '.' :: rest =>
    let ds := digits rest
    if ds.isEmpty then none else some (ds, ds.length + 1)
  | _ => some ([], 0)

/-- An exponent with one or more digits, if there is the mark of one, and how many characters these
are. -/
def exponent? : List Char → Option (Option (Bool × List Nat) × Nat)
  | c :: rest =>
    if c = 'e' ∨ c = 'E' then
      let (down, signs, cs) := match rest with
        | '-' :: more => (true, 1, more)
        | '+' :: more => (false, 1, more)
        | _ => (false, 0, rest)
      let ds := digits cs
      if ds.isEmpty then none else some (some (down, ds), 1 + signs + ds.length)
    else some (none, 0)
  | [] => some (none, 0)

/-- A literal without its sign, and how many characters it has. A leading zero stands alone. -/
def magnitude? (negative : Bool) (cs : List Char) : Option (Literal × Nat) := do
  let ds := digits cs
  let whole := if ds.head? = some 0 then [0] else ds
  if whole.isEmpty then none
  else
    let (fraction, n) ← fraction? (cs.drop whole.length)
    let (exponent, m) ← exponent? (cs.drop (whole.length + n))
    return (⟨negative, whole, fraction, exponent⟩, whole.length + n + m)

/-- A number at the start. -/
def number (cs : List Char) : Token.Reading :=
  let (negative, signs, rest) := match cs with
    | '-' :: rest => (true, 1, rest)
    | _ => (false, 0, cs)
  match magnitude? negative rest with
  | none => .malformed
  | some (l, length) => .token (.scalar (.number l.numeral?) none) (signs + length - 1)

/-- The word at the start, or nothing. -/
def keyword (word : List Char) (value : Written) (cs : List Char) : Token.Reading :=
  if word.isPrefixOf cs then .token (.scalar value none) (word.length - 1) else .malformed

def readToken (cs : List Char) : Token.Reading :=
  match cs with
  | [] => .malformed
  | c :: rest =>
    if c = ' ' ∨ c = '\t' ∨ c = '\n' ∨ c = '\r' then .blank 0
    else if c = '{' then .token .openObject 0
    else if c = '}' then .token .closeObject 0
    else if c = '[' then .token .openArray 0
    else if c = ']' then .token .closeArray 0
    else if c = ':' then .token .colon 0
    else if c = ',' then .token .comma 0
    else if c = '"' then
      match Quoted.pieces? quotedRules rest with
      | none => .malformed
      | some (pieces, read) => .token (.string ((Quoted.text? pieces).map String.ofList)) read
    else if c = 't' then keyword ['t', 'r', 'u', 'e'] (.bool true) cs
    else if c = 'f' then keyword ['f', 'a', 'l', 's', 'e'] (.bool false) cs
    else if c = 'n' then keyword ['n', 'u', 'l', 'l'] .null cs
    else number cs

/-- The text as a tree, if it keeps to the grammar. -/
def written? (text : String) : Option Written :=
  (Token.lex readToken 0 text.toList).bind (Written.ofTokens? false)

/-- The value of the text. -/
def read? (text : String) : Option Json :=
  (written? text).bind fun w => if w.depth ≤ maxDepth then w.value? else none

end LintMargin.Json.Strict
