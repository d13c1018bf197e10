import LintMargin.CommandLine
import LintMargin.Session.Events
import LintMargin.Terminal

/-!
# Linting files

Files are linted one after another in one session; each is opened, linted, printed if it has issues, and
closed again. A file that cannot be read ends the run, and so do services that break down; what was printed
before stays.
-/

namespace LintMargin.LintCommand

universe u

variable {σ : Type u}

/-- What a run printed and found, and the session it left, which is the last one before the services
broke down. -/
structure Result (σ : Type u) where
  printed : String
  hasIssues : Bool
  /-- All files could be read. -/
  complete : Bool
  /-- The services broke down. -/
  halted : Bool
  session : Session σ

/-- 101 if the services broke down, 2 if something could not be read, else 1 if there were issues, else
0. -/
def Result.exitCode (r : Result σ) : Nat :=
  if r.halted then 101 else if r.complete then if r.hasIssues then 1 else 0 else 2

/-- Opens a file and lints it. -/
def openAndLint (sv : Services σ) (doc : DocumentId) (path : Path) (text : String) (s : Session σ) :
    Outcome × Session σ :=
  { s with editor := Terminal.openFile s.editor doc path text }.activated sv doc

/-- Closes a file. -/
def close (doc : DocumentId) (s : Session σ) : Session σ :=
  let s := s.closed doc
  { s with editor := Terminal.closeFile s.editor doc }

/-- Lints files, which are documents from the given number on. -/
def lintFiles (t : FileTree) (sv : Services σ) (number : Nat) :
    List Path → Session σ → Result σ
  | [], s => ⟨"", false, true, false, s⟩
  | path :: rest, s =>
    match t.readText path with
    | .error _ => ⟨"", false, false, false, s⟩
    | .ok text =>
      let doc : DocumentId := ⟨UInt64.ofNat number⟩
      let (outcome, linted) := openAndLint sv doc path (String.ofList text) s
      if sv.halted linted.services then ⟨"", false, true, true, s⟩
      else
        let found := match outcome with
          | .linted rows => rows ≠ 0
          | _ => false
        let printed := if found then Terminal.report linted.editor doc else ""
        let later := lintFiles t sv (number + 1) rest (close doc linted)
        { later with
          printed := printed ++ later.printed
          hasIssues := found || later.hasIssues }

/-- The settings in the file that the options name, with the options' own flags. -/
def settings (t : FileTree) (o : LintOptions) : Except ConfigError Settings := do
  let s ← match o.settingsFile with
    | some path => Settings.load t path
    | none => .ok {}
  return { s with
    onlyConfig := s.onlyConfig || o.onlyConfig
    supportLintingJsx := s.supportLintingJsx || o.jsx }

/-- A session in a terminal, with configurations from a tree of files. -/
def startSession (home : Option Path) (settings : Settings) : Session Loader :=
  .start .empty (.withHome home) settings

/-- Lints files as a command does: settings first, then the files. -/
def run (t : FileTree) (runner : Runner) (home : Option Path) (o : LintOptions) (files : List Path) :
    Result Loader :=
  match settings t o with
  | .error _ => ⟨"", false, false, false, startSession home {}⟩
  | .ok settings =>
    lintFiles t (.ofFiles t runner o.programs) 1 files (startSession home settings)

/-- The start of watching a file: it is linted and printed once. Nothing comes of it if the settings or
the file cannot be read. -/
def watch (t : FileTree) (runner : Runner) (home : Option Path) (o : LintOptions) (file : Path) :
    Option (String × Session Loader) :=
  match settings t o, t.readText file with
  | .ok settings, .ok text =>
    let doc : DocumentId := ⟨1⟩
    let sv := Services.ofFiles t runner o.programs
    let (_, s) := openAndLint sv doc file (String.ofList text) (startSession home settings)
    some (Terminal.report s.editor doc, s)
  | _, _ => none

/-- The linters that were started in the course of a session. -/
def invocations (runner : Runner) (programs : LinterPrograms) (e : Editor) : List Invocation :=
  e.journal.filterMap fun call =>
    match call with
    | .lint flavor source options globals =>
      let i := Invocation.ofConfig (programs.get flavor) source ⟨options, none⟩ globals
      match runner i with
      | .ok _ => some i
      | .error _ => none
    | _ => none

end LintMargin.LintCommand
