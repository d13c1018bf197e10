import LintMargin.Linter.Command

/-!
# Programs in files

What happens when a program is started by its name: a name with a slash is a path, any other is looked
for in the directories of the search path. A program whose file may be executed replies as its script
says.
-/

namespace LintMargin

structure Script where
  name : String
  executable : Bool
  reply : Reply

structure Programs where
  tree : FileTree
  searchPath : List Path
  /-- The files that are programs. -/
  scripts : Place → Option Script

namespace Programs

/-- The script of a program in a given file. -/
def scriptAt (p : Programs) (path : Path) : Except IoError Script := do
  match p.scripts (← p.tree.locate path) with
  | some script => if script.executable then .ok script else .error .permissionDenied
  | none => .error .permissionDenied

/-- The first script that can be run; a file that may not be executed only matters if there is none, and a
name that is too long ends the search. -/
def searchScript (p : Programs) (name : String) (cause : IoError) : List Path → Except IoError Script
  | [] => .error cause
  | directory :: rest =>
    match p.scriptAt (directory.join name) with
    | .ok script => .ok script
    | .error .permissionDenied => p.searchScript name .permissionDenied rest
    | .error .nameTooLong => .error .nameTooLong
    | .error _ => p.searchScript name cause rest

def find (p : Programs) (name : String) : Except IoError Script :=
  if name.toList.contains '\x00' then .error .nulInProgram
  else if name.isEmpty then .error .notFound
  else if name.toList.contains '/' then p.scriptAt ⟨name⟩
  else p.searchScript name .notFound p.searchPath

def runner (p : Programs) : Runner := fun i => (p.find i.program).map (·.reply)

end Programs

end LintMargin
