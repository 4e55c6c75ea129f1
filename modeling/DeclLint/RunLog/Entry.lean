import DeclLint.FileResult
import DeclLint.Files.Host
import DeclLint.RunLog.Calendar
import DeclLint.Text.Blank

/-!
# What is kept of a run

An entry of the run log counts what a run did and lists every finding with the
line of source it belongs to.

* `RunLogEntry.ofLintResults` — the entry of a run that linted;
* `RunLogEntry.ofCorrectionResults` — the entry of a run that corrected.
-/

namespace DeclLint

/-- A violation, as it is kept. -/
structure LoggedViolation where
  ruleId : String
  path : String
  line : Nat
  character : Nat
  severity : Severity
  message : String
  /-- The line of source, unless it is blank or cannot be read. -/
  sourceLine : Option String
deriving DecidableEq, Repr

/-- A correction, as it is kept. -/
structure LoggedCorrection where
  ruleId : String
  path : String
  line : Nat
  character : Nat
  replacement : String
deriving DecidableEq, Repr

/-- What is kept of one run. -/
structure RunLogEntry where
  /-- Seconds since the beginning of 1970. -/
  timestamp : Int
  /-- The same moment in words. -/
  datetime : String
  command : String
  filesScanned : Nat
  totalViolations : Nat
  errorCount : Nat
  warningCount : Nat
  /-- Files that could not be read or parsed. -/
  failedFiles : Nat
  violations : List LoggedViolation
  corrections : List LoggedCorrection
  enabledRules : List String
deriving DecidableEq, Repr

/-- How many characters of a line of source are kept. -/
def maxSourceLine : Nat := 200

/-- A line, cut off where it is too long to be kept. -/
def shortened (line : String) : String :=
  if maxSourceLine < line.length then String.ofList (line.toList.take maxSourceLine) ++ "..."
  else line

/-- What is kept of a line of a text: nothing if it is blank. -/
def keptLine? (t : Text) (line : Nat) : Option String := do
  let trimmed := trimBlanks (← t.line? line).toList
  if trimmed.isEmpty then none else some (shortened (String.ofList trimmed))

namespace RunLogEntry

variable {m : Type → Type} [Monad m] [Host m]

/-- What is kept of a violation of the file at a path. -/
def logged (path : String) (v : Violation) : m LoggedViolation := do
  let source ← Host.readText path
  return {
    ruleId := v.ruleId
    path := path
    line := v.location.line
    character := v.location.character
    severity := v.severity
    message := v.message
    sourceLine := source.toOption.bind fun contents =>
      keptLine? (.ofString contents) v.location.line }

/-- The entry of a run that linted. -/
def ofLintResults (results : List LintResult) (rules : List String) : m RunLogEntry := do
  let now ← Host.time
  let violations ← results.mapM fun r => r.violations.mapM (logged r.path)
  let found := results.flatMap LintResult.violations
  return {
    timestamp := now
    datetime := isoMoment now
    command := "lint"
    filesScanned := results.length
    totalViolations := found.length
    errorCount := found.countP fun v => v.severity == .error
    warningCount := found.countP fun v => v.severity == .warning
    failedFiles := results.countP fun r => r.error.isSome
    violations := violations.flatten
    corrections := []
    enabledRules := rules }

/-- The entry of a run that corrected. -/
def ofCorrectionResults (results : List CorrectionResult) (rules : List String) :
    m RunLogEntry := do
  let now ← Host.time
  return {
    timestamp := now
    datetime := isoMoment now
    command := "autocorrect"
    filesScanned := results.length
    totalViolations := 0
    errorCount := 0
    warningCount := 0
    failedFiles := results.countP fun r => r.error.isSome
    violations := []
    corrections := results.flatMap fun r => r.applied.map fun c =>
      ⟨c.ruleId, r.path, c.location.line, c.location.character, c.replacement⟩
    enabledRules := rules }

end RunLogEntry

end DeclLint
