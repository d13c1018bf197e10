import LintMargin.FileTree

/-!
# Errors of linters
-/

namespace LintMargin

inductive LintError where
  /-- The linter could not be started. -/
  | notStarted (cause : IoError)
  /-- The linter ran and failed. -/
  | failed (text : String)
  /-- What the linter wrote could not be understood. -/
  | unreadableOutput (text : String)
deriving DecidableEq

def LintError.message : LintError → String
  | .notStarted cause => "Failed to run linter: " ++ cause.message
  | .failed text => "Linter failed: " ++ text
  | .unreadableOutput text => "Unreadable linter output: " ++ text

end LintMargin
