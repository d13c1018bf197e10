import LintMargin.Config.Options

/-!
# Chains of configurations

A configuration may name another one that it extends, by a path that starts from its own directory. The
options of the file nearest to the start of the chain win; the globals of all files are gathered, as far
as they are objects.

A chain may not come back to a path it has been at, and it may not have more than `maxFiles` files.
-/

namespace LintMargin.LintConfig

def maxFiles : Nat := 16

/-- The options of both, those of the extending file winning. Globals are merged one by one when both
sides give an object. -/
def overlay (base top : Members) : Members :=
  top.foldl (fun acc (key, value) =>
    match key, acc.get? "globals", value with
    | "globals", some (.object names), .object more =>
      acc.insert "globals" (.object (Members.merge names more))
    | _, _, _ => acc.insert key value) base

/-- The path of an extended configuration. -/
def extendedPath (path : Path) (name : String) : Path :=
  match path.parent? with
  | some directory => directory.join name
  | none => ⟨name⟩

/-- The options of a chain, given the paths it has been at and the number of files it may still have. -/
def readChain (t : FileTree) (visited : List (List Path.Component)) :
    Nat → Path → Except ConfigError Members
  | 0, path => .error (.brokenChain path)
  | left + 1, path =>
    if path.components ∈ visited then .error (.brokenChain path)
    else
      match t.readText path with
      | .error cause => .error (.unreadable path cause)
      | .ok text => do
        let options ← readMembers (String.ofList text)
        match options.get? "extends" with
        | none => return options
        | some (.string name) =>
          let base ← readChain t (path.components :: visited) left (extendedPath path name)
          return overlay base (options.erase "extends")
        | some _ => .error (.misshaped .extendsNotString)

/-- The configuration in a file and the files it extends. -/
def load (t : FileTree) (path : Path) : Except ConfigError LintConfig :=
  (readChain t [] maxFiles path).map fun options => (ofOptions options).withSource path

end LintMargin.LintConfig
