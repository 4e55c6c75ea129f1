import DeclLint.Configuration.Document
import DeclLint.Files.Host
import DeclLint.Files.Path

/-!
# The configuration file of a run

A run uses the configuration file that it is told to use, which has to be there.
Otherwise it uses the nearest one in the current directory or a directory around
it, if there is any.

* `findConfiguration?` — the nearest configuration file;
* `loadConfiguration` — the configuration of a run.
-/

namespace DeclLint

/-- The name of a configuration file. -/
def configurationName : String := ".structlint.toml"

/-- Why a configuration cannot be used. -/
inductive ConfigurationError where
  | notFound (path : String)
  | unreadable (path : String) (fault : FileFault)
  | invalid (path reason : String)
deriving DecidableEq, Repr

namespace ConfigurationError

/-- The sentence that reports the error. -/
def message : ConfigurationError → String
  | notFound path => s!"configuration file not found: {path}"
  | unreadable path fault => s!"failed to read {path}: {fault.message}"
  | invalid path reason => s!"invalid configuration in {path}: {reason}"

/-- What the error was caused by. -/
def cause? : ConfigurationError → Option String
  | notFound _ => none
  | unreadable _ fault => some fault.message
  | invalid _ reason => some reason

end ConfigurationError

variable {m : Type → Type} [Monad m] [Host m]

/-- The first of some paths at which there is a file. -/
def firstFile? : List String → m (Option String)
  | [] => return none
  | path :: paths => do
      if ← Host.isFile path then return some path else firstFile? paths

/-- The nearest configuration file, searched from a file or a directory. -/
def findConfiguration? (path : String) : m (Option String) := do
  let around := Path.parents path
  let directories := if ← Host.isFile path then around else path :: around
  firstFile? (directories.map fun directory => Path.join directory configurationName)

/-- The configuration in a file. -/
def readConfiguration (path : String) :
    m (Logged (Except ConfigurationError (Option Configuration))) := do
  let text ← Host.readText path
  return do
    Logged.note .debug s!"loading configuration from {path}"
    match text with
    | .error e => return .error (.unreadable path e)
    | .ok text =>
        match Configuration.parse? text with
        | none => return .error (.invalid path "not a TOML document of this form")
        | some c => return .ok (some c)

/-- The configuration of a run, given the path that it is told to use. -/
def loadConfiguration (path : Option String) :
    m (Logged (Except ConfigurationError (Option Configuration))) := do
  match path with
  | some path =>
      if ← Host.exists? path then readConfiguration path
      else return pure (.error (.notFound path))
  | none =>
      match ← Host.currentDirectory with
      | none => return pure (.ok none)
      | some directory =>
          match ← findConfiguration? directory with
          | none => return pure (.ok none)
          | some found => readConfiguration found

end DeclLint
