import LintMargin.Services

/-!
# The command line

Arguments are read from left to right. Options may stand before and after the files; a value follows its
option or is tied to it with an equals sign; no option may be given twice; after `--` everything is a
file.
-/

namespace LintMargin

structure LintOptions where
  jsx : Bool
  onlyConfig : Bool
  settingsFile : Option Path
  programs : LinterPrograms

inductive Command where
  /-- Lints files and prints what was found. -/
  | lint (files : List Path) (options : LintOptions)
  /-- Lints a file whenever it is saved. -/
  | watch (file : Path) (options : LintOptions)

namespace CommandLine

def versionText : String := "hintmark 0.1.0\n"

def helpText : String :=
  "Usage: hintmark [-v] lint FILES.. | watch FILE\n" ++
  "Options: --jsx --only-config --settings FILE --jshint PROGRAM --jsxhint PROGRAM\n"

/-- Why there is no command to carry out. -/
inductive Stop where
  | help
  | version
  | misuse
deriving DecidableEq

/-- What was read after the name of the command. -/
structure Draft where
  verbose : Bool := false
  jsx : Bool := false
  onlyConfig : Bool := false
  settings : Option String := none
  jshint : Option String := none
  jsxhint : Option String := none
  files : List String := []

namespace Draft

/-- Sets a flag that is not set yet. -/
def setFlag (d : Draft) : String → Except Stop Draft
  | "verbose" => if d.verbose then .error .misuse else .ok { d with verbose := true }
  | "jsx" => if d.jsx then .error .misuse else .ok { d with jsx := true }
  | "only-config" => if d.onlyConfig then .error .misuse else .ok { d with onlyConfig := true }
  | "help" => .error .help
  | _ => .error .misuse

def takesValue (name : String) : Bool := name = "settings" || name = "jshint" || name = "jsxhint"

/-- Sets an option that is not set yet. The name of a file is not empty. -/
def setValue (d : Draft) (name value : String) : Except Stop Draft :=
  match name with
  | "settings" =>
    if d.settings.isSome || value.isEmpty then .error .misuse
    else .ok { d with settings := some value }
  | "jshint" => if d.jshint.isSome then .error .misuse else .ok { d with jshint := some value }
  | "jsxhint" => if d.jsxhint.isSome then .error .misuse else .ok { d with jsxhint := some value }
  | _ => .error .misuse

def addFile (d : Draft) (file : String) : Except Stop Draft :=
  if file.isEmpty then .error .misuse else .ok { d with files := d.files ++ [file] }

/-- Letters after a single dash. -/
def setLetters (d : Draft) : List Char → Except Stop Draft
  | [] => .ok d
  | 'v' :: rest => do (← d.setFlag "verbose").setLetters rest
  | 'h' :: _ => .error .help
  | _ => .error .misuse

/-- Whether an argument is not an option. -/
def isPlain (arg : String) : Bool := arg = "-" || arg.toList.head? ≠ some '-'

/-- Reads the arguments after the name of the command. -/
def read (d : Draft) : List String → Except Stop Draft
  | [] => .ok d
  | arg :: rest =>
    match arg.toList with
    | ['-', '-'] => rest.foldlM addFile d
    | '-' :: '-' :: long =>
      let name := String.ofList (long.takeWhile (· ≠ '='))
      match long.dropWhile (· ≠ '=') with
      | _ :: value => do (← d.setValue name (String.ofList value)).read rest
      | [] =>
        if takesValue name then
          match rest with
          | value :: rest =>
            if isPlain value then do (← d.setValue name value).read rest else .error .misuse
          | [] => .error .misuse
        else do (← d.setFlag name).read rest
    | '-' :: c :: letters => do (← d.setLetters (c :: letters)).read rest
    | _ => do (← d.addFile arg).read rest

def options (d : Draft) : LintOptions where
  jsx := d.jsx
  onlyConfig := d.onlyConfig
  settingsFile := d.settings.map Path.mk
  programs :=
    { plain := d.jshint.getD ({} : LinterPrograms).plain
      jsx := d.jsxhint.getD ({} : LinterPrograms).jsx }

end Draft

/-- Letters after a single dash in front of the command, and whether they ask for more words. -/
def readLetters (verbose : Bool) : List Char → Except Stop Bool
  | [] => .ok verbose
  | 'v' :: rest => if verbose then .error .misuse else readLetters true rest
  | 'V' :: _ => .error .version
  | 'h' :: _ => .error .help
  | _ => .error .misuse

def readLint (args : List String) : Except Stop Command := do
  let d ← ({} : Draft).read args
  if d.files.isEmpty then .error .misuse else return .lint (d.files.map Path.mk) d.options

def readWatch (args : List String) : Except Stop Command := do
  let d ← ({} : Draft).read args
  match d.files with
  | [file] => return .watch ⟨file⟩ d.options
  | _ => .error .misuse

/-- The words after `help` name a command or nothing. -/
def readHelp : List String → Stop
  | [] | ["lint"] | ["watch"] | ["help"] => .help
  | _ => .misuse

/-- Reads all arguments. -/
def readFrom (verbose : Bool) : List String → Except Stop Command
  | [] => .error .misuse
  | "lint" :: rest => readLint rest
  | "watch" :: rest => readWatch rest
  | "help" :: rest => .error (readHelp rest)
  | "--version" :: _ => .error .version
  | "--help" :: _ => .error .help
  | "--verbose" :: rest => if verbose then .error .misuse else readFrom true rest
  | arg :: rest =>
    match arg.toList with
    | '-' :: c :: letters =>
      if c = '-' then .error .misuse
      else
        match readLetters verbose (c :: letters) with
        | .ok verbose => readFrom verbose rest
        | .error stop => .error stop
    | _ => .error .misuse

def read (args : List String) : Except Stop Command := readFrom false args

end CommandLine

end LintMargin
