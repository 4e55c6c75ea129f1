import DeclLint.Configuration.Override
import DeclLint.Report

/-!
# Arguments

The first argument names a command; the others are options and paths.  An option
is written `--name value` or `--name=value`, a switch `--name` or by its letter,
and letters can be put together.  After `--` everything is a path.

Arguments are read from left to right, and the first that does not fit ends the
reading.  Help is given only where everything before the request for it fits.

* `Command.parse` — the command that some arguments give.
-/

namespace DeclLint

/-- Settings that the commands share. -/
structure RunOptions where
  /-- The configuration file to use. -/
  configuration : Option String := none
  /-- Whether configuration files are ignored. -/
  ignoreConfiguration : Bool := false
  override : Override := {}
  /-- The run log to add to. -/
  logFile : Option String := none
  verbose : Bool := false
deriving DecidableEq, Repr

/-- What a run does. -/
inductive Command where
  /-- Report violations; `structurePath` names a file with the declaration tree of
  the only source file. -/
  | lint (paths : List String) (format : OutputFormat) (structurePath : Option String)
      (options : RunOptions)
  /-- Correct files in place. -/
  | autocorrect (paths : List String) (options : RunOptions)
  /-- List the rules. -/
  | rules (options : RunOptions)
  /-- Print the version. -/
  | version
deriving DecidableEq, Repr

/-- Why arguments give no command. -/
inductive Refusal where
  /-- They ask for help. -/
  | help
  /-- They ask for the name and version of the program. -/
  | about
  /-- They cannot be understood. -/
  | usage (reason : String)
deriving DecidableEq, Repr

/-- What stands behind an option. -/
inductive ValueForm where
  /-- Nothing: it is a switch. -/
  | absent
  /-- Items separated by commas. -/
  | items
  /-- The path of a file, which is not empty. -/
  | file
  /-- The format of a report. -/
  | format
deriving DecidableEq, Repr

/-- An option or switch that a command knows. -/
structure OptionSpec where
  name : String
  letter : Option Char := none
  value : ValueForm
deriving DecidableEq, Repr

/-- An argument by its role. -/
inductive Argument where
  | switch (name : String)
  | items (name : String) (values : List String)
  | file (name path : String)
  | format (name : String) (value : OutputFormat)
  | path (text : String)
deriving DecidableEq, Repr

namespace Argument

/-- The name of an option or switch that may be given only once. -/
def singleName? : Argument → Option String
  | switch name => some name
  | file name _ => some name
  | format name _ => some name
  | items _ _ => none
  | path _ => none

/-- Whether an argument can only be an option or a switch. -/
def isOption (text : String) : Bool :=
  text.toList.head? == some '-' && text != "-"

/-- The options of every command but `version`. -/
def sharedSpecs : List OptionSpec := [
  { name := "config", value := .file },
  { name := "no-config", value := .absent },
  { name := "enable", value := .items },
  { name := "disable", value := .items },
  { name := "exclude", value := .items },
  { name := "enable-all-rules", value := .absent },
  { name := "log-file", value := .file },
  { name := "verbose", letter := some 'v', value := .absent }]

/-- The options of `lint`. -/
def lintSpecs : List OptionSpec :=
  { name := "output-format", value := .format } :: { name := "structure", value := .file } ::
    sharedSpecs

/-- An option with what stands behind it. -/
def ofOption (spec : OptionSpec) (value : Option String) : Except Refusal Argument :=
  match spec.value, value with
  | .absent, none => .ok (switch spec.name)
  | .absent, some _ => .error (.usage s!"unexpected value for '--{spec.name}'")
  | _, none => .error (.usage s!"a value is required for '--{spec.name}'")
  | .items, some value => .ok (items spec.name (value.splitOn ","))
  | .file, some "" => .error (.usage s!"a value is required for '--{spec.name}'")
  | .file, some value => .ok (file spec.name value)
  | .format, some value =>
      match OutputFormat.ofLabel value with
      | .ok value => .ok (format spec.name value)
      | .error reason => .error (.usage reason)

/-- A letter among others. -/
def ofLetter (specs : List OptionSpec) (letter : Char) : Except Refusal Argument :=
  if letter = 'h' then .error .help
  else match specs.find? fun spec => spec.letter == some letter with
    | none => .error (.usage s!"unexpected argument '-{letter}'")
    | some spec => ofOption spec none

/-- A path, for a command that may take any. -/
def ofPath (takesPaths : Bool) (text : String) : Except Refusal Argument :=
  if takesPaths then .ok (path text) else .error (.usage s!"unexpected argument '{text}'")

/-- Cut an option into its name and the value behind its equals sign. -/
def nameAndValue (body : List Char) : String × Option String :=
  let name := String.ofList (body.takeWhile (· ≠ '='))
  match body.dropWhile (· ≠ '=') with
  | [] => (name, none)
  | _ :: value => (name, some (String.ofList value))

/-- The arguments that some texts are, each by itself.  An option without an equals
sign takes the text behind it, if that can be a value. -/
def each (specs : List OptionSpec) (takesPaths : Bool) :
    List String → List (Except Refusal Argument)
  | [] => []
  | "--" :: paths => paths.map (ofPath takesPaths)
  | text :: more =>
      match text.toList with
      | '-' :: '-' :: body =>
          let (name, value) := nameAndValue body
          match specs.find? fun spec => spec.name == name with
          | none =>
              if name = "help" ∧ value = none then [.error .help]
              else [.error (.usage s!"unexpected argument '--{name}'")]
          | some spec =>
              match spec.value, value, more with
              | .absent, value, more => ofOption spec value :: each specs takesPaths more
              | _, none, next :: more =>
                  ofOption spec (if isOption next then none else some next) ::
                    each specs takesPaths more
              | _, value, more => ofOption spec value :: each specs takesPaths more
      | '-' :: letter :: letters =>
          (letter :: letters).map (ofLetter specs) ++ each specs takesPaths more
      | _ => ofPath takesPaths text :: each specs takesPaths more

/-- All arguments, or the first refusal.  `given` names the options before them;
only lists of items may be given more than once. -/
def collect (given : List String) : List (Except Refusal Argument) → Except Refusal (List Argument)
  | [] => .ok []
  | .error refusal :: _ => .error refusal
  | .ok argument :: more => do
      if let some name := argument.singleName? then
        if given.contains name then
          throw (.usage s!"the argument '--{name}' cannot be used multiple times")
      return argument :: (← collect (argument.singleName?.toList ++ given) more)

/-- Read the arguments of a command.  A configuration cannot be both named and
ignored. -/
def read (specs : List OptionSpec) (takesPaths : Bool) (texts : List String) :
    Except Refusal (List Argument) := do
  let arguments ← collect [] (each specs takesPaths texts)
  let names := arguments.filterMap singleName?
  if names.contains "config" && names.contains "no-config" then
    throw (.usage "the argument '--config' cannot be used with '--no-config'")
  return arguments

/-- The items of every list of a name, in order. -/
def itemsOf (name : String) (arguments : List Argument) : List String :=
  arguments.flatMap fun
    | items given values => if given = name then values else []
    | _ => []

/-- The file that an option names. -/
def fileOf? (name : String) (arguments : List Argument) : Option String :=
  arguments.findSome? fun
    | file given target => if given = name then some target else none
    | _ => none

/-- The format of the report: text unless one is given. -/
def formatOf (arguments : List Argument) : OutputFormat :=
  (arguments.findSome? fun
    | format _ value => some value
    | _ => none).getD .text

/-- The paths, or the current directory if there are none. -/
def pathsOf (arguments : List Argument) : List String :=
  let given := arguments.filterMap fun
    | path text => some text
    | _ => none
  if given.isEmpty then ["."] else given

/-- The settings that the commands share. -/
def runOptions (arguments : List Argument) : RunOptions where
  configuration := fileOf? "config" arguments
  ignoreConfiguration := arguments.contains (switch "no-config")
  override := {
    enable := itemsOf "enable" arguments
    disable := itemsOf "disable" arguments
    exclude := itemsOf "exclude" arguments
    enableAllRules := arguments.contains (switch "enable-all-rules") }
  logFile := fileOf? "log-file" arguments
  verbose := arguments.contains (switch "verbose")

end Argument

namespace Command

/-- The names of the commands. -/
def names : List String := ["lint", "autocorrect", "rules", "version"]

/-- The command of a name with its arguments. -/
def ofName (name : String) (texts : List String) : Except Refusal Command :=
  match name with
  | "lint" => do
      let arguments ← Argument.read Argument.lintSpecs true texts
      return .lint (Argument.pathsOf arguments) (Argument.formatOf arguments)
        (Argument.fileOf? "structure" arguments) (Argument.runOptions arguments)
  | "autocorrect" => do
      let arguments ← Argument.read Argument.sharedSpecs true texts
      return .autocorrect (Argument.pathsOf arguments) (Argument.runOptions arguments)
  | "rules" => do
      let arguments ← Argument.read Argument.sharedSpecs false texts
      return .rules (Argument.runOptions arguments)
  | "version" => do
      let _ ← Argument.read [] false texts
      return .version
  | name => .error (.usage s!"unrecognized subcommand '{name}'")

/-- The command that some arguments give. -/
def parse : List String → Except Refusal Command
  | [] => .error (.usage "a subcommand is required")
  | ["help"] => .error .help
  | ["help", name] =>
      if name ∈ "help" :: names then .error .help
      else .error (.usage s!"unrecognized subcommand '{name}'")
  | first :: texts =>
      if first = "--help" then .error .help
      else if first = "--version" then .error .about
      else match first.toList with
        | '-' :: 'h' :: _ => .error .help
        | '-' :: 'V' :: _ => .error .about
        | _ => ofName first texts

end Command

end DeclLint
