/-!
# UTF-8

Octets are decoded by a machine that knows how many continuation octets it still owes and between which
bounds the next one lies. Where an octet does not fit, what was read of the character is one bad part,
and the octet is read afresh; so every bad part is as long as it can be.

Main definitions: `decode` accepts well-formed octets only, `decodeLossy` shows each bad part as U+FFFD.
-/

namespace LintMargin.Text.Utf8

/-- A character begun: the octets still owed, the bounds of the next, and the bits so far. -/
structure Pending where
  owed : Nat
  low : UInt8
  high : UInt8
  bits : Nat
deriving DecidableEq

/-- What an octet between characters is: a whole character, the start of one, or bad. -/
inductive Lead where
  | whole (c : Char)
  | start (p : Pending)
  | bad

def lead (b : UInt8) : Lead :=
  if b < 0x80 then .whole (Char.ofNat b.toNat)
  else if b < 0xc2 then .bad
  else if b < 0xe0 then .start ⟨1, 0x80, 0xbf, b.toNat - 0xc0⟩
  else if b < 0xf0 then
    .start ⟨2, if b = 0xe0 then 0xa0 else 0x80, if b = 0xed then 0x9f else 0xbf, b.toNat - 0xe0⟩
  else if b < 0xf5 then
    .start ⟨3, if b = 0xf0 then 0x90 else 0x80, if b = 0xf4 then 0x8f else 0xbf, b.toNat - 0xf0⟩
  else .bad

/-- An octet read between characters: what it completes, and what it begins. -/
def begin (b : UInt8) : List (Option Char) × Option Pending :=
  match lead b with
  | .whole c => ([some c], none)
  | .start p => ([], some p)
  | .bad => ([none], none)

/-- One octet; `none` in the output is a bad part. -/
def step (state : Option Pending) (b : UInt8) : List (Option Char) × Option Pending :=
  match state with
  | none => begin b
  | some p =>
    if p.low ≤ b ∧ b ≤ p.high then
      let bits := 64 * p.bits + (b.toNat - 0x80)
      if p.owed = 1 then ([some (Char.ofNat bits)], none)
      else ([], some ⟨p.owed - 1, 0x80, 0xbf, bits⟩)
    else
      let (out, next) := begin b
      (none :: out, next)

/-- The characters and the bad parts, in order. -/
def parts (state : Option Pending) : List UInt8 → List (Option Char)
  | [] => if state.isSome then [none] else []
  | b :: rest =>
    let (out, next) := step state b
    out ++ parts next rest

/-- The text, if every octet belongs to a character. -/
def decode (octets : List UInt8) : Option (List Char) := (parts none octets).mapM id

/-- The text with U+FFFD for every bad part. -/
def decodeLossy (octets : List UInt8) : List Char :=
  (parts none octets).map (·.getD '\ufffd')

def encode (s : String) : List UInt8 := s.toUTF8.toList

end LintMargin.Text.Utf8
