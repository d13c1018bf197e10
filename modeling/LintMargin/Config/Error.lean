import LintMargin.FileTree

/-!
# Errors of configuration files
-/

namespace LintMargin

/-- How a well-formed text can fail to be what it should be. -/
inductive Misshape where
  | rootNotObject
  | extendsNotString
  | settings
deriving DecidableEq

def Misshape.message : Misshape → String
  | .rootNotObject => "root must be an object"
  | .extendsNotString => "`extends` must be a path string"
  | .settings => "Invalid settings"

inductive ConfigError where
  | unreadable (path : Path) (cause : IoError)
  /-- The text is not lenient JSON. -/
  | malformed
  | misshaped (shape : Misshape)
  /-- A chain of `extends` comes back to a file or is too long. -/
  | brokenChain (path : Path)
  /-- An ignore file that cannot be read or holds a malformed glob. -/
  | ignoreFile
deriving DecidableEq

namespace ConfigError

/-- What is wrong, where that can be said without the parser's own words. -/
def message? : ConfigError → Option String
  | .unreadable path cause => some ("Failed to read " ++ path.text ++ ": " ++ cause.message)
  | .misshaped shape => some ("Invalid config: " ++ shape.message)
  | .brokenChain path => some ("Config extends chain is broken at " ++ path.text)
  | .malformed | .ignoreFile => none

end ConfigError

end LintMargin
