import DeclLint.CommandLine.Arguments
import DeclLint.CommandLine.Report
import DeclLint.Configuration.File
import DeclLint.Files.Discovery
import DeclLint.Files.Lint
import DeclLint.RunLog.File
import DeclLint.Source.Outline
import DeclLint.Text.Quoted

/-!
# The program

A run settles its configuration, picks the rules, opens its log, does its work,
prints the results and adds an entry to the log.  It ends with an exit code: 0 if
all went well, 2 if a violation is an error, 1 if it could not do its work.

* `Program.run` — a command;
* `Program.execute` — the command that some arguments give.
-/

namespace DeclLint

/-- The version of the program. -/
def programVersion : String := "0.1.0"

/-- The name of the program. -/
def programName : String := "structlint"

/-- Why a run could not do its work: the failure, then what it was caused by. -/
structure Failure where
  causes : List String

namespace Failure

/-- The failure with its causes on one line. -/
def message (e : Failure) : String := ": ".intercalate e.causes

end Failure

namespace Program

variable {m : Type → Type} [Monad m] [Host m]

/-- A step of a run, which may fail. -/
abbrev Step (m : Type → Type) := ExceptT Failure m

/-- Print a line where errors go. -/
def say (line : String) : Step m Unit := ExceptT.lift (Host.print .errors line)

/-- Go on with the value of an operation, or fail with an explanation. -/
def orFail {α : Type} (explanation : String) (operation : m (Except FileFault α)) : Step m α := do
  match ← ExceptT.lift operation with
  | .ok a => return a
  | .error e => throw ⟨[explanation, e.message]⟩

/-- The configuration of a run. -/
def configure (options : RunOptions) : Step m Configuration := do
  let loaded ← if options.ignoreConfiguration then pure (pure (.ok none))
    else ExceptT.lift (loadConfiguration options.configuration)
  match loaded.value with
  | .error e => throw ⟨e.message :: e.cause?.toList⟩
  | .ok file =>
      let configuration := (file.getD {}).override options.override
      if options.verbose then
        say s!"Exclude patterns: {quotedTexts configuration.excluded}"
      return configuration

/-- The rules of a run. -/
def pickRules (options : RunOptions) (configuration : Configuration) : Step m Linter := do
  let linter : Linter := ⟨(configuration.resolve Registry.builtin).value⟩
  if options.verbose then
    let ids := ", ".intercalate linter.ruleIds
    say s!"Active rules: {ids}"
  return linter

/-- Open the log of a run, if it has one. -/
def openLog (options : RunOptions) : Step m Unit := do
  if let some path := options.logFile then
    orFail s!"failed to open log file {path}" (RunLog.openAt path)

/-- Add an entry to the log of a run, if it has one. -/
def writeLog (options : RunOptions) (entry : m RunLogEntry) : Step m Unit := do
  if let some path := options.logFile then
    let entry ← ExceptT.lift entry
    orFail s!"failed to write {path}" (RunLog.append path entry)

/-- The results of linting a file with the tree that another file holds. -/
def lintGiven (linter : Linter) (paths : List String) (structurePath : String) :
    Step m (List LintResult) := do
  match paths with
  | [path] =>
      if ← ExceptT.lift (Host.isFile path) then
        let result ← ExceptT.lift (linter.lintFileWithStructure path structurePath)
        return [result.value]
      else throw ⟨["--structure requires exactly one source file"]⟩
  | _ => throw ⟨["--structure requires exactly one source file"]⟩

/-- The source files of a run; that there are none is said. -/
def sourceFiles (configuration : Configuration) (verbose : Bool) (paths : List String) :
    Step m (List String) := do
  let files ← ExceptT.lift (findSourceFiles configuration.excluded paths)
  if verbose then
    say s!"Found {files.value.length} Swift files"
  if files.value.isEmpty then
    say "No Swift files found"
  return files.value

/-- The results of linting all files, unless there are none. -/
def lintFound (linter : Linter) (configuration : Configuration) (verbose : Bool)
    (paths : List String) : Step m (Option (List LintResult)) := do
  let files ← sourceFiles configuration verbose paths
  if files.isEmpty then return none
  else
    let results ← ExceptT.lift (linter.lintFiles declarationTree files)
    return some results.value

/-- Report the violations of files. -/
def lint (colored : Bool) (paths : List String) (format : OutputFormat)
    (structurePath : Option String) (options : RunOptions) : Step m Nat := do
  let configuration ← configure options
  let linter ← pickRules options configuration
  openLog options
  let results ← match structurePath with
    | some given => some <$> lintGiven linter paths given
    | none => lintFound linter configuration options.verbose paths
  match results with
  | none => return 0
  | some results =>
      match format with
      | .json => ExceptT.lift (Host.print .output (Report.json results))
      | .text => ExceptT.lift (results.forM (LintResult.print colored))
      writeLog options (RunLogEntry.ofLintResults results linter.ruleIds)
      let summary := Summary.ofResults results
      let found := s!"Found {summary.total} violation(s), {summary.errors} serious"
      say s!"Done linting! {found} in {summary.files} file(s)."
      return if 0 < summary.errors then 2 else 0

/-- Correct files in place. -/
def autocorrect (colored : Bool) (paths : List String) (options : RunOptions) : Step m Nat := do
  let configuration ← configure options
  let linter ← pickRules options configuration
  openLog options
  let files ← sourceFiles configuration false paths
  if files.isEmpty then return 0
  else
    let results ← ExceptT.lift (linter.correctFiles declarationTree files)
    ExceptT.lift (results.value.forM (CorrectionResult.print colored))
    writeLog options (RunLogEntry.ofCorrectionResults results.value linter.ruleIds)
    let changed := results.value.countP fun r => r.corrected.isSome
    say s!"Done correcting {results.value.length} file(s)! {changed} file(s) changed."
    return 0

/-- Print a rule, and whether it is enabled. -/
def printRule (colored enabled : Bool) (r : Rule) : m Unit := do
  let name := (TextStyle.heavy .cyan).paint colored r.id
  let optIn := if r.description.optIn then ", opt-in" else ""
  let correctable := if r.fix.isSome then ", correctable" else ""
  Host.print .output
    s!"{name} {r.description.name} [{r.description.kind.label}{optIn}{correctable}]"
  let state := if enabled then TextStyle.green.paint colored "enabled"
    else TextStyle.dimmed.paint colored "disabled"
  Host.print .output s!"    {state}: {r.description.description}"

/-- List the rules. -/
def rules (colored : Bool) (options : RunOptions) : Step m Nat := do
  let configuration ← configure options
  let enabled := (configuration.resolve Registry.builtin).value.map Rule.id
  for r in Registry.builtin.rules do
    ExceptT.lift (printRule colored (enabled.contains r.id) r)
  return 0

/-- Do what a command says. -/
def perform (colored : Bool) : Command → Step m Nat
  | .lint paths format structurePath options => lint colored paths format structurePath options
  | .autocorrect paths options => autocorrect colored paths options
  | .rules options => rules colored options
  | .version => do
      ExceptT.lift (Host.print .output programVersion)
      return 0

/-- Run a command and return its exit code. -/
def run (colored : Bool) (command : Command) : m Nat := do
  match ← (perform colored command).run with
  | .ok code => return code
  | .error e =>
      let mark := (TextStyle.heavy .red).paint colored "error"
      Host.print .errors s!"{mark}: {e.message}"
      return 1

/-- How the program is called. -/
def usage : List String := [
  "A structure-aware linter and autocorrector for Swift declarations",
  "",
  s!"Usage: {programName} lint [OPTIONS] [PATHS]...",
  s!"       {programName} autocorrect [OPTIONS] [PATHS]...",
  s!"       {programName} rules [OPTIONS]",
  s!"       {programName} version",
  "",
  "Options:",
  "  --config <FILE>        Configuration file (defaults to the nearest .structlint.toml)",
  "  --no-config            Ignore configuration files",
  "  --enable <RULES>       Enable specific rules (comma-separated)",
  "  --disable <RULES>      Disable specific rules (comma-separated)",
  "  --exclude <PATTERNS>   Exclude paths matching patterns (comma-separated)",
  "  --enable-all-rules     Run every rule, opt-in rules included",
  "  --log-file <FILE>      Append a JSON Lines record of this run to a file",
  "  -v, --verbose          Show verbose output",
  "",
  "Options of lint:",
  "  --output-format <FORMAT>   text or json",
  "  --structure <FILE>         Use the declaration tree in a JSON file for a single source file"]

/-- Run the command that some arguments give and return its exit code. -/
def execute (colored : Bool) (arguments : List String) : m Nat := do
  match Command.parse arguments with
  | .ok command => run colored command
  | .error .help => do
      usage.forM (Host.print .output)
      return 0
  | .error .about => do
      Host.print .output s!"{programName} {programVersion}"
      return 0
  | .error (.usage reason) => do
      Host.print .errors s!"error: {reason}"
      usage.forM (Host.print .errors)
      return 2

end Program

end DeclLint
