import LintMargin.Config.Extends
import LintMargin.Ignore.Rules
import LintMargin.Json.Strict

/-!
# Finding configurations

The configuration of a file is looked for in the directory of the file and in those above it: first in
the nearest `package.json`, then in the nearest `.jshintrc`, and last in the `.jshintrc` of the home
directory. Looking never fails; a configuration that cannot be used counts as none.

A loader remembers where it found files, and the ignore rules it read, until it is told to forget.
-/

namespace LintMargin

structure Loader where
  home : Option Path
  /-- Where a search that came to this path ended. -/
  found : List (List Path.Component × Option Path)
  ignores : List (List Path.Component × Ignore.Rules)
  /-- Rules were asked about a path that they cannot judge, with which the program ends. -/
  halted : Bool

namespace Loader

def packageFile : String := "package.json"

def configFile : String := ".jshintrc"

def ignoreFile : String := ".jshintignore"

def withHome (home : Option Path) : Loader := ⟨home, [], [], false⟩

def forget (l : Loader) : Loader := withHome l.home

/-- The first of the paths that exists, or what is remembered of the first that is remembered; and the
paths that were tried. -/
def search (t : FileTree) (found : List (List Path.Component × Option Path)) :
    List Path → Option Path × List Path
  | [] => (none, [])
  | candidate :: rest =>
    match found.lookup candidate.components with
    | some known => (known, [])
    | none =>
      if t.exists? candidate then (some candidate, [candidate])
      else
        let (result, tried) := search t found rest
        (result, candidate :: tried)

/-- Looks for a name in a directory and in those above it. -/
def findFile (t : FileTree) (name : String) (directory : Path) (l : Loader) : Option Path × Loader :=
  let (result, tried) := search t l.found (directory.ancestors.map (·.join name))
  (result, { l with found := tried.map (fun p => (p.components, result)) ++ l.found })

/-- The directory of a file; the root and the empty path have none. -/
def directoryOf? (t : FileTree) (file : Path) : Option Path :=
  (t.absolute? file).bind Path.parent?

/-- The options in a package file, if it is strict JSON and has them as an object. -/
def packageConfig? (t : FileTree) (path : Path) : Option LintConfig :=
  match t.readText path with
  | .error _ => none
  | .ok text =>
    match Json.Strict.read? (String.ofList text) with
    | some (.object members) =>
      match Members.get? "jshintConfig" members with
      | some (.object options) => some ((LintConfig.ofOptions options).withSource path)
      | _ => none
    | _ => none

/-- The configuration of the home directory, if there is such a file. -/
def homeConfig? (t : FileTree) (l : Loader) : Option Path :=
  match l.home with
  | none => none
  | some home =>
    let path := home.join configFile
    if t.isFile path then some path else none

/-- The configuration in a file, or none if it cannot be used. -/
def loadOrEmpty (t : FileTree) : Option Path → LintConfig
  | none => .empty
  | some path =>
    match LintConfig.load t path with
    | .ok config => config
    | .error _ => .empty

/-- The configuration of the files in a directory. -/
def resolveIn (t : FileTree) (directory : Path) (l : Loader) : LintConfig × Loader :=
  let (package, l) := l.findFile t packageFile directory
  match package.bind (packageConfig? t) with
  | some config => (config, l)
  | none =>
    let (nearest, l) := l.findFile t configFile directory
    (loadOrEmpty t (nearest.or (l.homeConfig? t)), l)

/-- The configuration of a file. -/
def resolve (t : FileTree) (file : Path) (l : Loader) : LintConfig × Loader :=
  match directoryOf? t file with
  | none => (.empty, l)
  | some directory => l.resolveIn t directory

/-- The rules in an ignore file, which speak of the paths in its directory. -/
def readRules (t : FileTree) (path : Path) : Except ConfigError Ignore.Rules :=
  match t.readText path with
  | .error _ => .error .ignoreFile
  | .ok text =>
    match Ignore.Rules.ofText? (path.parent?.getD ⟨""⟩) text with
    | some rules => .ok rules
    | none => .error .ignoreFile

/-- The rules in an ignore file, remembered if they can be used. -/
def rulesAt (t : FileTree) (path : Path) (l : Loader) : Option Ignore.Rules × Loader :=
  match l.ignores.lookup path.components with
  | some rules => (some rules, l)
  | none =>
    match readRules t path with
    | .ok rules => (some rules, { l with ignores := (path.components, rules) :: l.ignores })
    | .error _ => (none, l)

/-- Whether the nearest ignore file excludes a file. -/
def isIgnored (t : FileTree) (file : Path) (l : Loader) : Bool × Loader :=
  match directoryOf? t file with
  | none => (false, l)
  | some directory =>
    match l.findFile t ignoreFile directory with
    | (none, l) => (false, l)
    | (some path, l) =>
      match l.rulesAt t path with
      | (none, l) => (false, l)
      | (some rules, l) =>
        let whole := (t.absolute? file).getD file
        (rules.isIgnored whole, { l with halted := l.halted || !rules.canJudge whole })

end Loader

end LintMargin
