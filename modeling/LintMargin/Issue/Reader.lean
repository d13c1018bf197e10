import LintMargin.Issue
import LintMargin.Json.Strict

/-!
# Issues as JSON

An issue is an object with the fields `line`, `character`, `reason` and `code`, of which only the reason
is needed, or an array of them in that order. Fields with other names are passed over, whatever they
hold; a field must not come twice.
-/

namespace LintMargin.Issue

open Json

/-- A word of 32 bits without sign, fraction or exponent. -/
def word? : Written → Option UInt32
  | .number (some (.int n)) =>
    if 0 ≤ n ∧ n.toNat < UInt32.size then some (UInt32.ofNat n.toNat) else none
  | _ => none

def text? : Written → Option String
  | .string s => s
  | _ => none

def code? : Written → Option (Option String)
  | .null => some none
  | .string (some s) => some (some s)
  | _ => none

/-- The fields read so far. -/
structure Draft where
  line : Option UInt32 := none
  character : Option UInt32 := none
  reason : Option String := none
  code : Option (Option String) := none

namespace Draft

/-- Reads one field that was not read before. -/
def setField (d : Draft) (name : String) (value : Written) : Option Draft :=
  match name with
  | "line" => if d.line.isSome then none else (word? value).map fun n => { d with line := some n }
  | "character" =>
    if d.character.isSome then none else (word? value).map fun n => { d with character := some n }
  | "reason" =>
    if d.reason.isSome then none else (text? value).map fun s => { d with reason := some s }
  | "code" => if d.code.isSome then none else (code? value).map fun c => { d with code := some c }
  | _ => some d

def setMember (d : Draft) (member : Option String × Written) : Option Draft :=
  member.1.bind fun name => d.setField name member.2

def toIssue? (d : Draft) : Option Issue :=
  d.reason.map fun reason => ⟨d.line.getD 0, d.character.getD 0, reason, d.code.getD none⟩

end Draft

def fieldNames : List String := ["line", "character", "reason", "code"]

def ofWritten? : Written → Option Issue
  | .object members => (members.foldlM Draft.setMember {}).bind Draft.toIssue?
  | .array items =>
    if fieldNames.length < items.length then none
    else
      ((fieldNames.zip items).foldlM (fun (d : Draft) f => d.setField f.1 f.2) {}).bind
        Draft.toIssue?
  | _ => none

/-- The issue that a strict JSON text stands for. -/
def read? (text : String) : Option Issue := (Strict.written? text).bind ofWritten?

end LintMargin.Issue
