import LintMargin.Config.Options

/-!
# Settings

What the user decides about linting as a whole. A settings file is an object with some of the fields, or
an array of the first fields in order; what is missing has its default.
-/

namespace LintMargin

/-- How many milliseconds a document has to be quiet before its events take effect. -/
structure Delays where
  lint : Nat := 50
  render : Nat := 200
  status : Nat := 100
deriving DecidableEq, Inhabited

structure Settings where
  /-- Do not lint a file for which no configuration was found. -/
  onlyConfig : Bool := false
  /-- Lint on saving only, not on edits. -/
  validateOnlyOnSave : Bool := false
  /-- Use the linter that knows JSX. -/
  supportLintingJsx : Bool := false
  delays : Delays := {}
deriving DecidableEq, Inhabited

namespace Settings

/-- The values of some fields, in order. Each field may have several names, but only one of them may
be used. -/
def fields? (names : List (List String)) : Json → Option (List (Option Json))
  | .object members =>
    names.mapM fun spellings =>
      match spellings.filterMap (Members.get? · members) with
      | [] => some none
      | [value] => some (some value)
      | _ => none
  | .array items =>
    if names.length < items.length then none
    else some (items.map some ++ List.replicate (names.length - items.length) none)
  | _ => none

def bool? (default : Bool) : Option Json → Option Bool
  | none => some default
  | some (.bool b) => some b
  | some _ => none

/-- A number of milliseconds, which has neither sign nor fraction. -/
def millis? (default : Nat) : Option Json → Option Nat
  | none => some default
  | some (.number (.int n)) => if 0 ≤ n then some n.toNat else none
  | some _ => none

def delays? : Option Json → Option Delays
  | none => some {}
  | some j => do
    match ← fields? [["lintMs"], ["renderMs"], ["statusMs"]] j with
    | [lint, render, status] =>
      return ⟨← millis? ({} : Delays).lint lint, ← millis? ({} : Delays).render render,
        ← millis? ({} : Delays).status status⟩
    | _ => none

def ofJson? (j : Json) : Option Settings := do
  let names := [["onlyConfig"], ["validateOnlyOnSave"], ["supportLintingJsx", "transformJsx"],
    ["debounce"]]
  match ← fields? names j with
  | [onlyConfig, validateOnlyOnSave, supportLintingJsx, delays] =>
    return ⟨← bool? false onlyConfig, ← bool? false validateOnlyOnSave,
      ← bool? false supportLintingJsx, ← delays? delays⟩
  | _ => none

def read (text : String) : Except ConfigError Settings :=
  match Json.Lenient.read text with
  | .malformed => .error .malformed
  | .nothing => .ok {}
  | .value j =>
    match ofJson? j with
    | some s => .ok s
    | none => .error (.misshaped .settings)

def load (t : FileTree) (path : Path) : Except ConfigError Settings :=
  match t.readText path with
  | .error cause => .error (.unreadable path cause)
  | .ok text => read (String.ofList text)

end Settings

end LintMargin
