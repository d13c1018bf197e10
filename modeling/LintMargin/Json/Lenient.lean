import LintMargin.Json.Strict
import LintMargin.Text.Blank
import LintMargin.Text.Letter

/-!
# Lenient JSON

JSON as people write it by hand: comments, strings in single quotes, bare words as keys, commas that
are left out or trail, numbers with a plus sign or in hexadecimal. A text without any value is not an
error.
-/

namespace LintMargin.Json.Lenient

open Number

/-- What a text comes to. -/
inductive Content where
  | malformed
  | nothing
  | value (v : Json)

/-! ## Comments -/

/-- The number of characters up to and including the end of a block comment, if it ends. -/
def blockLength? : List Char → Option Nat
  | '*' :: '/' :: _ => some 2
  | _ :: rest => (blockLength? rest).map (· + 1)
  | [] => none

/-- A comment, of which the first slash is already read. -/
def comment : List Char → Token.Reading
  | '/' :: rest => .blank ((rest.takeWhile (· ≠ '\n')).length + 1)
  | '*' :: rest =>
    match blockLength? rest with
    | some n => .blank (n + 1)
    | none => .malformed
  | _ => .malformed

/-! ## Strings and words -/

def quotedRules (quote : Char) : Quoted.Rules where
  quote
  escape c := if c = quote then some c else Quoted.commonEscape c
  raw _ := true

/-- A string, of which the quote is already read. -/
def quoted (quote : Char) (rest : List Char) : Token.Reading :=
  match Quoted.pieces? (quotedRules quote) rest with
  | none => .malformed
  | some (pieces, read) =>
    match Quoted.text? pieces with
    | some cs => .token (.string (some (String.ofList cs))) read
    | none => .malformed

def isWordChar (c : Char) : Bool := Text.isAlphanumeric c || c = '-' || c = '_'

/-- A bare word, which ends before a blank, a colon or the end of the text. -/
def word (cs : List Char) : Token.Reading :=
  let name := cs.takeWhile fun c => !Text.isBlank c && c ≠ ':'
  if name ≠ [] ∧ name.all isWordChar then .token (.word (String.ofList name)) (name.length - 1)
  else .malformed

/-- Whether the text starts with the word and goes on with neither letter nor digit. -/
def startsWithWord (name cs : List Char) : Bool :=
  name.isPrefixOf cs &&
    match cs.drop name.length with
    | c :: _ => !Text.isAlphanumeric c
    | [] => true

def keywordOrWord (cs : List Char) : Token.Reading :=
  if startsWithWord ['t', 'r', 'u', 'e'] cs then .token (.scalar (.bool true) none) 3
  else if startsWithWord ['f', 'a', 'l', 's', 'e'] cs then .token (.scalar (.bool false) none) 4
  else if startsWithWord ['n', 'u', 'l', 'l'] cs then .token (.scalar .null none) 3
  else word cs

/-! ## Numbers -/

/-- The greatest magnitude of a hexadecimal number; the text of a greater one is its value. -/
def greatestHex : Nat := Nat.pow 2 63 - 1

/-- Hexadecimal digits, of which there has to be one, after the given start of the number. -/
def hexadecimal (negative : Bool) (before rest : List Char) : Token.Reading :=
  let digits := rest.takeWhile fun c => (Text.hexValue? c).isSome
  if digits.isEmpty then .malformed
  else
    let text := String.ofList (before ++ digits)
    let n := Text.ofDigits 16 (digits.filterMap Text.hexValue?)
    let value : Written :=
      if greatestHex < n then .string (some text)
      else .number (some (.int (if negative then -n else n)))
    .token (.scalar value (some text)) (before.length + digits.length - 1)

/-- A decimal number, whose own text is its value if it is too great. -/
def decimal (negative : Bool) (sign cs : List Char) : Token.Reading :=
  match Strict.magnitude? negative cs with
  | none => .malformed
  | some (l, length) =>
    let text := String.ofList (sign ++ cs.take length)
    let value : Written :=
      match l.numeral? with
      | some n => .number (some n)
      | none => .string (some text)
    .token (.scalar value (some text)) (sign.length + length - 1)

/-- A number after its sign. -/
def magnitude (negative : Bool) (sign : List Char) : List Char → Token.Reading
  | '0' :: 'x' :: rest => hexadecimal negative (sign ++ ['0', 'x']) rest
  | '0' :: 'X' :: rest => hexadecimal negative (sign ++ ['0', 'X']) rest
  | cs => decimal negative sign cs

/-! ## Texts -/

def readToken : List Char → Token.Reading
  | [] => .malformed
  | c :: rest =>
    if Text.isBlank c then .blank 0
    else if c = '{' then .token .openObject 0
    else if c = '}' then .token .closeObject 0
    else if c = '[' then .token .openArray 0
    else if c = ']' then .token .closeArray 0
    else if c = ':' then .token .colon 0
    else if c = ',' then .token .comma 0
    else if c = '"' ∨ c = '\'' then quoted c rest
    else if c = '/' then comment rest
    else if c = '-' then magnitude true ['-'] rest
    else if c = '+' then magnitude false ['+'] rest
    else if c.isDigit then magnitude false [] (c :: rest)
    else keywordOrWord (c :: rest)

def read (text : String) : Content :=
  match Token.lex readToken 0 text.toList with
  | none => .malformed
  | some [] => .nothing
  | some tokens =>
    match (Written.ofTokens? true tokens).bind Written.value? with
    | some v => .value v
    | none => .malformed

end LintMargin.Json.Lenient
