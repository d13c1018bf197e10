import LintMargin.Ignore.Glob
import LintMargin.Text.Utf8

/-!
# Globs in octets

Paths are matched octet by octet: a character stands for the octets of its UTF-8 form, and a class for
one octet.
-/

namespace LintMargin.Ignore.Glob

def charOctets (c : Char) : List UInt8 := Text.Utf8.encode (String.singleton c)

/-- The ranges of octets of a range of characters: of the first character, all octets but the last
stand alone, and so do all but the first of the last character. -/
def octetRanges (r : Char × Char) : List (UInt8 × UInt8) :=
  let low := charOctets r.1
  let high := charOctets r.2
  if r.1 = r.2 then low.map fun b => (b, b)
  else
    low.dropLast.map (fun b => (b, b)) ++
      (low.getLastD 0, high.headD 0) :: high.tail.map fun b => (b, b)

/-- The ranges of octets of a class. -/
def classRanges (ranges : List (Char × Char)) : List (UInt8 × UInt8) := ranges.flatMap octetRanges

/-! ## Silent pieces -/

mutual

/-- Whether the piece is a choice between nothing but silent alternatives, which are left out. -/
def isSilent : Piece → Bool
  | .choice alternatives => allSilent alternatives
  | _ => false

def allSilent : List (List Piece) → Bool
  | [] => true
  | pieces :: rest => isSilentList pieces && allSilent rest

def isSilentList : List Piece → Bool
  | [] => true
  | p :: rest => isSilent p && isSilentList rest

end

end LintMargin.Ignore.Glob
