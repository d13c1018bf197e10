import LintMargin.Config.Error
import LintMargin.Json.Lenient

/-!
# Lint options

The options a linter is given for one file, and the file they were found in. The key `dirname`, with
which some tools note where a configuration lies, is no option and is left out.
-/

namespace LintMargin

structure LintConfig where
  options : Members
  source : Option Path
deriving Inhabited

namespace LintConfig

/-- No options, found nowhere: the linter's defaults apply. -/
def empty : LintConfig := ⟨[], none⟩

def ofOptions (options : Members) : LintConfig := ⟨options.erase "dirname", none⟩

def withSource (c : LintConfig) (path : Path) : LintConfig := { c with source := some path }

/-- The names that the linted code may take for granted, if they are given as an object. -/
def globals? (c : LintConfig) : Option Members := (c.options.get? "globals").bind Json.object?

/-- Whether the options were found in a file. -/
def isDiscovered (c : LintConfig) : Bool := c.source.isSome

def isEmpty (c : LintConfig) : Bool := c.options.isEmpty

/-- The members of a text whose value, if it has one, is an object. -/
def readMembers (text : String) : Except ConfigError Members :=
  match Json.Lenient.read text with
  | .malformed => .error .malformed
  | .nothing => .ok []
  | .value (.object members) => .ok members
  | .value _ => .error (.misshaped .rootNotObject)

def read (text : String) : Except ConfigError LintConfig := (readMembers text).map ofOptions

end LintConfig

end LintMargin
