import LintMargin.Config.Loader
import LintMargin.Linter.Command
import LintMargin.Editor

/-!
# Services

What a session asks besides the editor: where configurations come from, and the linters. Each answer may
depend on a state `σ` of the services and change it; nothing else is assumed of them.
-/

namespace LintMargin

universe u

structure Services (σ : Type u) where
  /-- Whether a file is excluded from linting. -/
  isIgnored : Path → σ → Bool × σ
  /-- The configuration of a file. -/
  resolve : Path → σ → LintConfig × σ
  /-- Forgets what earlier look-ups found. -/
  forget : σ → σ
  lint : Flavor → String → LintConfig → Option Members → σ → Except LintError Report × σ
  /-- Whether the services broke down, with which the program ends. -/
  halted : σ → Bool := fun _ => false

/-- The programs that serve as linters. -/
structure LinterPrograms where
  plain : String := "jshint"
  jsx : String := "jsxhint"

def LinterPrograms.get (p : LinterPrograms) : Flavor → String
  | .plain => p.plain
  | .jsx => p.jsx

/-- Configurations from the files of a tree, and programs as linters; the state is the loader. -/
def Services.ofFiles (t : FileTree) (run : Runner) (programs : LinterPrograms) : Services Loader where
  isIgnored path l := l.isIgnored t path
  resolve path l := l.resolve t path
  forget := Loader.forget
  lint flavor source config globals l :=
    ((Invocation.ofConfig (programs.get flavor) source config globals).lint run, l)
  halted l := l.halted

end LintMargin
