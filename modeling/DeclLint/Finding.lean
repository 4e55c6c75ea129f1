import DeclLint.Location

/-!
# What a run finds

A violation says that a rule is broken at a place; a correction says how to
replace a span of the text.
-/

namespace DeclLint

/-- How much a violation matters. -/
inductive Severity where
  | warning
  | error
deriving DecidableEq, Repr

namespace Severity

/-- The word for a severity, in reports and in settings. -/
def label : Severity → String
  | warning => "warning"
  | error => "error"

/-- The severity that a word names. -/
def ofLabel? (s : String) : Option Severity :=
  if s = "warning" then some warning else if s = "error" then some error else none

theorem ofLabel?_label (s : Severity) : ofLabel? s.label = some s := by
  cases s <;> rfl

end Severity

/-- A broken rule. -/
structure Violation where
  ruleId : String
  ruleName : String
  severity : Severity
  message : String
  location : Location
deriving DecidableEq, Repr

/-- A replacement of one span of a text. -/
structure Correction where
  ruleId : String
  /-- Place of the rule among the rules of the run; at one start the lower wins. -/
  ruleIndex : Nat
  /-- What is replaced, in the text that was linted. -/
  range : CharRange
  replacement : String
  location : Location
deriving DecidableEq, Repr

end DeclLint
