import DeclLint.CommandLine.Style
import DeclLint.Files.Host
import DeclLint.Report

/-!
# Printed results

Findings go to the output, one a line; a file without findings for some reason
goes to the errors.
-/

namespace DeclLint

open TextStyle

variable {m : Type → Type} [Monad m] [Host m]

/-- A severity in its colour. -/
def paintedSeverity (colored : Bool) : Severity → String
  | .error => (heavy red).paint colored Severity.error.label
  | .warning => (heavy yellow).paint colored Severity.warning.label

/-- The line of a violation. -/
def Violation.painted (colored : Bool) (v : Violation) : String :=
  let place := bold.paint colored v.location.render
  let severity := paintedSeverity colored v.severity
  let rule := cyan.paint colored v.ruleId
  s!"{place}: {severity}: {v.ruleName} Violation: {v.message} ({rule})"

/-- Without colours the line is the one of a report. -/
theorem painted_off (v : Violation) : v.painted false = v.render := by
  cases h : v.severity <;> simp [Violation.painted, Violation.render, paintedSeverity, h, paint_off]

/-- Print why a file has no findings. -/
def printFileError (colored : Bool) (path error : String) : m Unit :=
  Host.print .errors s!"{red.paint colored path}: {error}"

/-- Print the violations of a file. -/
def LintResult.print (colored : Bool) (r : LintResult) : m Unit :=
  match r.error with
  | some error => printFileError colored r.path error
  | none => r.violations.forM fun v => Host.print .output (v.painted colored)

/-- Print the corrections of a file, first those that were made. -/
def CorrectionResult.print (colored : Bool) (r : CorrectionResult) : m Unit := do
  match r.error with
  | some error => printFileError colored r.path error
  | none =>
      for c in r.applied do
        let place := bold.paint colored c.location.render
        Host.print .output s!"{place} Corrected {cyan.paint colored c.ruleId}"
      for c in r.dropped do
        let place := dimmed.paint colored c.location.render
        let skipped := yellow.paint colored "Skipped"
        Host.print .output s!"{place} {skipped} {cyan.paint colored c.ruleId}"

end DeclLint
