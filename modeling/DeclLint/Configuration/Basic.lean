import DeclLint.Rule.Registry

/-!
# Which rules run

A configuration disables rules, asks for rules that do not run by themselves,
or names the only rules that run.  A disabled rule never runs.  Names that
belong to no rule are noted and have no effect.

* `Configuration.selects` — whether a rule runs;
* `Configuration.resolve` — the rules of a registry that run, with the severity
  they are reported with;
* `value_resolve` — they are the selected ones, in the order of the registry.
-/

namespace DeclLint

/-- What a configuration file can set. -/
structure Configuration where
  /-- Rules that never run. -/
  disabledRules : List String := []
  /-- Rules that run although they do not by themselves. -/
  optInRules : List String := []
  /-- The only rules that run, unless there are none here. -/
  onlyRules : List String := []
  /-- Names and paths that are passed over in search of files. -/
  excluded : List String := []
  /-- Whether rules run that do not by themselves. -/
  enableAllRules : Bool := false
  /-- The rules with settings of their own, and the severity they are given. -/
  rules : List (String × Option Severity) := []
deriving DecidableEq, Repr

namespace Configuration

/-- Whether a rule runs. -/
def selects (c : Configuration) (r : Rule) : Bool :=
  !c.disabledRules.contains r.id &&
    if c.onlyRules.isEmpty then
      c.enableAllRules || !r.description.optIn || c.optInRules.contains r.id
    else c.onlyRules.contains r.id

/-- The severity that a rule is given, if any. -/
def severity? (c : Configuration) (id : String) : Option Severity := (c.rules.lookup id).join

/-- A rule with the severity that it is given. -/
def configure (c : Configuration) (r : Rule) : Rule := (c.severity? r.id).elim r r.withSeverity

/-- Every rule that the configuration names. -/
def namedRules (c : Configuration) : List String :=
  c.disabledRules ++ c.optInRules ++ c.onlyRules ++ c.rules.map Prod.fst

/-- The rules of a registry that run.  A name that none of them has is noted. -/
def resolve (c : Configuration) (registry : Registry) : Logged (List Rule) := do
  let known := ", ".intercalate registry.ruleIds
  let unknown := c.namedRules.filter fun id => !registry.ruleIds.contains id
  Logged.noteAll .warning (unknown.map fun id =>
    s!"unknown rule '{id}' in configuration (known rules: {known})")
  pure ((registry.rules.filter c.selects).map c.configure)

@[simp] theorem value_resolve (c : Configuration) (registry : Registry) :
    (c.resolve registry).value = (registry.rules.filter c.selects).map c.configure := rfl

@[simp] theorem id_configure (c : Configuration) (r : Rule) : (c.configure r).id = r.id := by
  unfold configure
  cases c.severity? r.id <;> rfl

end Configuration

end DeclLint
