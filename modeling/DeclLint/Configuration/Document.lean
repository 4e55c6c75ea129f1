import DeclLint.Configuration.Basic
import DeclLint.Toml.Reader

/-!
# Configuration files

A configuration file is a TOML document.  Every key is optional and keys without
meaning are passed over, but a key that has one needs a value of its form.  The
settings of a rule are a table, or a list that begins with the severity.

* `Configuration.parse?` — the configuration that a text spells.
-/

namespace DeclLint

namespace Configuration

/-- Decode the value of an optional key; `absent` stands for a missing one. -/
def decodeKey {α : Type} (entries : Toml.Entries) (key : String) (absent : α)
    (decode : Toml → Option α) : Option α :=
  match Toml.lookup? key entries with
  | none => some absent
  | some value => decode value

/-- A text. -/
def text? : Toml → Option String
  | .string text => some text
  | _ => none

/-- A list of texts. -/
def texts? : Toml → Option (List String)
  | .array items => items.mapM text?
  | _ => none

/-- A truth value. -/
def boolean? : Toml → Option Bool
  | .boolean value => some value
  | _ => none

/-- Whether a value is an empty table or list. -/
def isEmptyValue : Toml → Bool
  | .table _ entries => entries.isEmpty
  | .array items => items.isEmpty
  | _ => false

/-- A severity: its word, or a table that gives its word an empty value. -/
def decodeSeverity? : Toml → Option Severity
  | .string text => Severity.ofLabel? text
  | .table _ [(key, value)] => if isEmptyValue value then Severity.ofLabel? key else none
  | _ => none

/-- The settings of a rule.  A date is a table whose only key has no meaning. -/
def ruleSettings? : Toml → Option (Option Severity)
  | .table _ entries => decodeKey entries "severity" none fun v => some <$> decodeSeverity? v
  | .array (first :: _) => some <$> decodeSeverity? first
  | .tables elements => do some <$> decodeSeverity? (← elements.getLast?)
  | .datetime _ => some none
  | _ => none

/-- The settings of some rules. -/
def rules? : Toml → Option (List (String × Option Severity))
  | .table _ entries => entries.mapM fun e => do pure (e.1, ← ruleSettings? e.2)
  | _ => none

/-- The configuration that the entries of a document describe. -/
def ofEntries? (entries : Toml.Entries) : Option Configuration := do
  pure {
    disabledRules := ← decodeKey entries "disabled_rules" [] texts?
    optInRules := ← decodeKey entries "opt_in_rules" [] texts?
    onlyRules := ← decodeKey entries "only_rules" [] texts?
    excluded := ← decodeKey entries "excluded" [] texts?
    enableAllRules := ← decodeKey entries "enable_all_rules" false boolean?
    rules := ← decodeKey entries "rules" [] rules? }

/-- The configuration that a text spells. -/
def parse? (text : String) : Option Configuration := do ofEntries? (← Toml.parse? text)

end Configuration

end DeclLint
