import DeclLint.Configuration.Basic

/-!
# Settings that go before a configuration

Settings of one run change a configuration: first rules are enabled, then rules
are disabled, so a rule that is both stays disabled.  Some directories are never
worth a search and are always excluded.

* `Configuration.override` — the configuration of a run.
-/

namespace DeclLint

/-- Settings of one run. -/
structure Override where
  enable : List String := []
  disable : List String := []
  exclude : List String := []
  enableAllRules : Bool := false
deriving DecidableEq, Repr

/-- Put an item at the end of a list that does not hold it yet. -/
def addMissing (items : List String) (item : String) : List String :=
  if items.contains item then items else items ++ [item]

/-- Adding an item that may be there already leaves the other members alone. -/
theorem mem_addMissing {items : List String} {item other : String} :
    other ∈ addMissing items item ↔ other ∈ items ∨ other = item := by
  unfold addMissing
  split
  next h =>
    have : item ∈ items := by simpa using h
    exact ⟨.inl, fun h => h.elim id fun h => h ▸ this⟩
  next => simp

/-- Directories that are always excluded. -/
def excludedAlways : List String :=
  [".build", ".git", ".swiftpm", "Carthage", "DerivedData", "Pods"]

namespace Configuration

/-- The configuration with a rule enabled. -/
def enable (c : Configuration) (id : String) : Configuration :=
  { c with
    disabledRules := c.disabledRules.filter (· != id)
    optInRules := addMissing c.optInRules id
    onlyRules := if c.onlyRules.isEmpty then [] else addMissing c.onlyRules id }

/-- The configuration with a rule disabled. -/
def disable (c : Configuration) (id : String) : Configuration :=
  { c with
    disabledRules := addMissing c.disabledRules id
    optInRules := c.optInRules.filter (· != id)
    onlyRules := c.onlyRules.filter (· != id) }

/-- The configuration of a run. -/
def override (c : Configuration) (o : Override) : Configuration :=
  let changed := o.disable.foldl disable (o.enable.foldl enable c)
  { changed with
    enableAllRules := c.enableAllRules || o.enableAllRules
    excluded := excludedAlways.foldl addMissing (c.excluded ++ o.exclude) }

end Configuration

end DeclLint
