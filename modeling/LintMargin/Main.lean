import LintMargin.Sources

/-!
# The program

The program starts no linter itself: it stands behind one in a pipe, and what comes in on standard input
is taken for the reply to every request to lint. Everything that bears on the outcome is read first, as a
tree of files; the rest is a function of that tree.
-/

namespace LintMargin.Program

/-- What a path holds. What is there and cannot be read as a file counts as a directory. -/
def look (path : Path) : IO (Option Node) := do
  try
    let octets ← IO.FS.readBinFile path.text
    return some (.file octets.toList)
  catch
    | .noFileOrDirectory .. => return none
    | _ => return some .directory

def load (t : FileTree) (path : Path) : IO FileTree := do
  match ← look path with
  | some node => return t.write path node
  | none => return t

/-- Reads the paths that a run depends on, in rounds; the files of one round may name those of the
next. -/
def gather (sources : FileTree → List Path) : Nat → List Path → FileTree → IO FileTree
  | 0, _, t => return t
  | rounds + 1, known, t => do
    let fresh := (sources t).filter fun path => !known.contains path
    if fresh.isEmpty then return t
    else gather sources rounds (fresh ++ known) (← fresh.foldlM load t)

/-- The tree of the files that a run depends on. -/
def treeFor (home settings : Option Path) (files : List Path) : IO FileTree := do
  let here := (← IO.currentDir).toString
  let names := (Text.split '/' here.toList).filter (!Path.isVoid ·)
  gather (Sources.ofRun · home settings files) (LintConfig.maxFiles + 1) [] (.bare names)

/-- Every linter replies with what stands on standard input. -/
def pipedRunner : IO Runner := do
  let octets ← (← IO.getStdin).readBinToEnd
  return fun _ => .ok ⟨octets.toList, [], .code 0⟩

def carryOut : Command → IO UInt32
  | .lint files o => do
    let home := (← IO.getEnv "HOME").map Path.mk
    let t ← treeFor home o.settingsFile files
    let result := LintCommand.run t (← pipedRunner) home o files
    IO.print result.printed
    return UInt32.ofNat result.exitCode
  | .watch file o => do
    let home := (← IO.getEnv "HOME").map Path.mk
    let t ← treeFor home o.settingsFile [file]
    match LintCommand.watch t (← pipedRunner) home o file with
    | some (printed, _) =>
      IO.print printed
      return 0
    | none => return 2

end LintMargin.Program

def main (args : List String) : IO UInt32 := do
  match LintMargin.CommandLine.read args with
  | .ok command => LintMargin.Program.carryOut command
  | .error .version =>
    IO.print LintMargin.CommandLine.versionText
    return 0
  | .error .help =>
    IO.print LintMargin.CommandLine.helpText
    return 0
  | .error .misuse =>
    IO.eprint LintMargin.CommandLine.helpText
    return 2
