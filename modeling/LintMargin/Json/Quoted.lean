import LintMargin.Text.Digits

/-!
# Quoted strings

The inside of a quoted string is read as characters and, where `\u` names one, as UTF-16 units. Units
then pair up to characters; a string with an unpaired surrogate has no value.
-/

namespace LintMargin.Json.Quoted

inductive Piece where
  | char (c : Char)
  | unit (n : Nat)

/-- Which escapes stand for which characters, and which characters stand for themselves. -/
structure Rules where
  quote : Char
  escape : Char → Option Char
  raw : Char → Bool

/-- The escapes that every quoted string knows, `\u` apart. -/
def commonEscape (c : Char) : Option Char :=
  if c = '\\' ∨ c = '/' then some c
  else if c = 'b' then some '\x08'
  else if c = 'f' then some '\x0c'
  else if c = 'n' then some '\n'
  else if c = 'r' then some '\r'
  else if c = 't' then some '\t'
  else none

/-- The pieces up to the closing quote, and the number of characters read, the quote included. -/
def pieces? (rules : Rules) : List Char → Option (List Piece × Nat)
  | [] => none
  | '\\' :: 'u' :: a :: b :: c :: d :: rest => do
    let digits ← [a, b, c, d].mapM Text.hexValue?
    let (pieces, read) ← pieces? rules rest
    return (.unit (Text.ofDigits 16 digits) :: pieces, read + 6)
  | '\\' :: e :: rest => do
    let c ← rules.escape e
    let (pieces, read) ← pieces? rules rest
    return (.char c :: pieces, read + 2)
  | c :: rest =>
    if c = rules.quote then some ([], 1)
    else if rules.raw c then do
      let (pieces, read) ← pieces? rules rest
      return (.char c :: pieces, read + 1)
    else none

def isHighSurrogate (n : Nat) : Bool := 0xd800 ≤ n && n ≤ 0xdbff

def isLowSurrogate (n : Nat) : Bool := 0xdc00 ≤ n && n ≤ 0xdfff

/-- The characters of the pieces, unless a surrogate is unpaired. -/
def text? : List Piece → Option (List Char)
  | [] => some []
  | .char c :: rest => (text? rest).map (c :: ·)
  | .unit n :: .unit m :: rest =>
    if isHighSurrogate n then
      if isLowSurrogate m then
        (text? rest).map (Char.ofNat (0x10000 + 0x400 * (n - 0xd800) + (m - 0xdc00)) :: ·)
      else none
    else if isLowSurrogate n then none
    else (text? (.unit m :: rest)).map (Char.ofNat n :: ·)
  | .unit n :: rest =>
    if isHighSurrogate n || isLowSurrogate n then none
    else (text? rest).map (Char.ofNat n :: ·)

end LintMargin.Json.Quoted
