import DeclLint.FileResult
import DeclLint.Json.Printer

/-!
# Reports

A report shows violations as lines of text or as one JSON array, and counts
them.

* `Violation.render` — one line of text;
* `Report.json` — the array;
* `Summary.ofResults` — the counts.
-/

namespace DeclLint

/-- How violations are shown. -/
inductive OutputFormat where
  | text
  | json
deriving DecidableEq, Repr

namespace OutputFormat

/-- The word for a format. -/
def label : OutputFormat → String
  | text => "text"
  | json => "json"

/-- The format that a word names; any other word is refused with a sentence. -/
def ofLabel (s : String) : Except String OutputFormat :=
  if s = "text" then .ok text
  else if s = "json" then .ok json
  else .error s!"unknown output format '{s}' (expected text or json)"

theorem ofLabel_label (f : OutputFormat) : ofLabel f.label = .ok f := by
  cases f <;> rfl

end OutputFormat

/-- Counts over a whole run. -/
structure Summary where
  files : Nat := 0
  failedFiles : Nat := 0
  errors : Nat := 0
  warnings : Nat := 0
deriving DecidableEq, Repr

namespace Summary

/-- Number of violations of either severity. -/
def total (s : Summary) : Nat := s.errors + s.warnings

/-- The counts over some results. -/
def ofResults (results : List LintResult) : Summary :=
  let violations := results.flatMap LintResult.violations
  { files := results.length
    failedFiles := results.countP fun r => r.error.isSome
    errors := violations.countP fun v => v.severity == .error
    warnings := violations.countP fun v => v.severity == .warning }

theorem countP_error_add_warning (violations : List Violation) :
    (violations.countP fun v => v.severity == .error) +
      (violations.countP fun v => v.severity == .warning) = violations.length := by
  induction violations with
  | nil => rfl
  | cons v violations ih => cases h : v.severity <;> simp [h] <;> omega

/-- The total counts every violation once. -/
theorem total_ofResults (results : List LintResult) :
    (ofResults results).total = (results.flatMap LintResult.violations).length :=
  countP_error_add_warning _

end Summary

/-- `path:line:col: severity: Name Violation: message (rule)`. -/
def Violation.render (v : Violation) : String :=
  s!"{v.location.render}: {v.severity.label}: {v.ruleName} Violation: {v.message} ({v.ruleId})"

namespace Report

/-- A violation of the file at a path, as a JSON object. -/
def violationJson (path : String) (v : Violation) : JsonValue :=
  JsonValue.ofMembers [
    ("file", .ofString path),
    ("line", .ofNat v.location.line),
    ("character", .ofNat v.location.character),
    ("severity", .ofString v.severity.label),
    ("rule_id", .ofString v.ruleId),
    ("rule_name", .ofString v.ruleName),
    ("reason", .ofString v.message)]

/-- The violations of all results, as one JSON array over several lines. -/
def json (results : List LintResult) : String :=
  JsonValue.pretty (.array (results.flatMap fun r => r.violations.map (violationJson r.path)))

end Report

end DeclLint
