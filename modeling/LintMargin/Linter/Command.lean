import LintMargin.Config.Options
import LintMargin.Json.Printer
import LintMargin.Linter.Error
import LintMargin.Linter.UnixReport

/-!
# Linters as commands

A linter is a program that gets the source on standard input and the options in a file, and reports in
the `unix` format. What programs do is not known here: `Runner` stands for it.
-/

namespace LintMargin

/-- How a program ended. -/
inductive ExitStatus where
  | code (n : Nat)
  | signal (n : Nat)
deriving DecidableEq

/-- What a program wrote, and how it ended. -/
structure Reply where
  output : List UInt8
  errors : List UInt8
  status : ExitStatus

/-- What a linter is given. -/
structure Invocation where
  program : String
  source : String
  /-- The text of the file with the options. -/
  config : String
deriving DecidableEq

/-- What happens when programs are run. -/
abbrev Runner := Invocation → Except IoError Reply

namespace ExitStatus

/-- The status of a program that ends with a number, of which eight bits are kept. -/
def ofNumber (n : Nat) : ExitStatus := .code (n % 256)

/-- The signals that leave a program running unless it asks for them: none at all, a child that ended, a
program that goes on, urgent data, and a window that changed. -/
def harmlessSignals : List Nat := [0, 17, 18, 23, 28]

/-- The status of a program that last of all sends itself a signal. -/
def ofSignal (n : Nat) : ExitStatus :=
  if harmlessSignals.contains n then .code 0 else .signal n

/-- Problems in the source are no failure: 0 and 2 are the codes of a linter that did its work. -/
def isSuccess : ExitStatus → Bool
  | .code n => n = 0 || n = 2
  | .signal _ => false

/-- The names of the signals from 1 on. -/
def signalNames : List String :=
  ["SIGHUP", "SIGINT", "SIGQUIT", "SIGILL", "SIGTRAP", "SIGABRT", "SIGBUS", "SIGFPE", "SIGKILL",
    "SIGUSR1", "SIGSEGV", "SIGUSR2", "SIGPIPE", "SIGALRM", "SIGTERM", "SIGSTKFLT", "SIGCHLD",
    "SIGCONT", "SIGSTOP", "SIGTSTP", "SIGTTIN", "SIGTTOU", "SIGURG", "SIGXCPU", "SIGXFSZ",
    "SIGVTALRM", "SIGPROF", "SIGWINCH", "SIGIO", "SIGPWR", "SIGSYS"]

def signalName : Nat → String
  | 0 => ""
  | n + 1 => match signalNames[n]? with
    | some name => " (" ++ name ++ ")"
    | none => ""

def describe : ExitStatus → String
  | .code n => "exit status: " ++ Nat.repr n
  | .signal n => "signal: " ++ Nat.repr n ++ signalName n

end ExitStatus

namespace Invocation

/-- The arguments of a linter, for a given path of the file with the options. -/
def arguments (configPath : String) : List String :=
  ["--reporter=unix", "--verbose", "--config", configPath, "-"]

/-- The options that are written out: those of the configuration, with the globals if any are given. -/
def ofConfig (program source : String) (config : LintConfig) (globals : Option Members) :
    Invocation :=
  let options := match globals with
    | some names => Members.insert "globals" (.object names) config.options
    | none => config.options
  ⟨program, source, Json.render (.object options)⟩

/-- What a linter's reply says about the source. -/
def report (program : String) (reply : Reply) : Except LintError Report :=
  if reply.status.isSuccess then
    .ok (UnixReport.parse (String.ofList (Text.Utf8.decodeLossy reply.output)))
  else
    let errors := Text.trimEnd (Text.Utf8.decodeLossy reply.errors)
    .error (.failed (program ++ " exited with " ++ reply.status.describe ++ ": " ++
      String.ofList errors))

/-- Runs a linter. -/
def lint (run : Runner) (i : Invocation) : Except LintError Report :=
  match run i with
  | .error cause => .error (.notStarted cause)
  | .ok reply => report i.program reply

end Invocation

end LintMargin
