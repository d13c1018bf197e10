import LintMargin.LintCommand

/-!
# What a run depends on

The paths whose contents can bear on linting some files. Which configurations are extended stands in
the files, so the list for a tree that holds only a part may have to be made again when more is known.
-/

namespace LintMargin.Sources

/-- The paths that are looked at for the configuration and the ignore rules of a file. -/
def around (t : FileTree) (file : Path) : List Path :=
  match Loader.directoryOf? t file with
  | none => []
  | some directory =>
    directory.ancestors.flatMap fun d =>
      [Loader.packageFile, Loader.configFile, Loader.ignoreFile].map d.join

/-- The path that a configuration extends, if the tree holds it. -/
def extended? (t : FileTree) (path : Path) : Option Path :=
  match t.readText path with
  | .error _ => none
  | .ok text =>
    match LintConfig.readMembers (String.ofList text) with
    | .error _ => none
    | .ok options =>
      match options.get? "extends" with
      | some (.string name) => some (LintConfig.extendedPath path name)
      | _ => none

/-- The configurations from one on, as far as the tree holds them; a chain has an end. -/
def chain (t : FileTree) : Nat → Path → List Path
  | 0, _ => []
  | left + 1, path => path :: match extended? t path with
    | some next => chain t left next
    | none => []

/-- The paths that bear on linting files. -/
def ofRun (t : FileTree) (home : Option Path) (settings : Option Path) (files : List Path) :
    List Path :=
  let homeConfig := home.map fun h => h.join Loader.configFile
  files ++ settings.toList ++
    (files.flatMap (around t) ++ homeConfig.toList).flatMap (chain t LintConfig.maxFiles)

end LintMargin.Sources
