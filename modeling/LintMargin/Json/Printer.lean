import LintMargin.Json

/-!
# Printing JSON

Compact text: no blanks, members in the order they are held, characters beyond ASCII as they are.
-/

namespace LintMargin.Json

open Number

/-- Floats are positional from 1e-5 up to below 1e16; other exponents carry their sign. -/
def floatFormat : FloatFormat := ⟨-5, 16, ['+']⟩

/-- A control character as `\u` and four lower-case hexadecimal digits. -/
def escapeControl (c : Char) : List Char :=
  let digits := Nat.toDigits 16 c.toNat
  '\\' :: 'u' :: List.replicate (4 - digits.length) '0' ++ digits

/-- Only the quote, the backslash and the controls below U+0020 are escaped. -/
def escapeChar (c : Char) : List Char :=
  if c = '"' then ['\\', '"']
  else if c = '\\' then ['\\', '\\']
  else if c = '\x08' then ['\\', 'b']
  else if c = '\t' then ['\\', 't']
  else if c = '\n' then ['\\', 'n']
  else if c = '\x0c' then ['\\', 'f']
  else if c = '\r' then ['\\', 'r']
  else if c.toNat < 0x20 then escapeControl c
  else [c]

def renderString (s : String) : List Char :=
  '"' :: s.toList.flatMap escapeChar ++ ['"']

def renderNumeral : Numeral → List Char
  | .int n => if n < 0 then '-' :: Nat.toDigits 10 n.natAbs else Nat.toDigits 10 n.natAbs
  | .float x => floatFormat.render x

mutual

def renderChars : Json → List Char
  | .null => ['n', 'u', 'l', 'l']
  | .bool true => ['t', 'r', 'u', 'e']
  | .bool false => ['f', 'a', 'l', 's', 'e']
  | .number n => renderNumeral n
  | .string s => renderString s
  | .array items => '[' :: renderItems items ++ [']']
  | .object members => '{' :: renderMembers members ++ ['}']

def renderItems : List Json → List Char
  | [] => []
  | [item] => renderChars item
  | item :: next :: rest => renderChars item ++ ',' :: renderItems (next :: rest)

def renderMembers : List (String × Json) → List Char
  | [] => []
  | [(key, value)] => renderString key ++ ':' :: renderChars value
  | (key, value) :: next :: rest =>
    renderString key ++ ':' :: renderChars value ++ ',' :: renderMembers (next :: rest)

end

def render (j : Json) : String := String.ofList j.renderChars

end LintMargin.Json
