import DeclLint.Rule.RuntimeLet

/-!
# The rules there are

A registry lists rules with the severity they have unless told otherwise.  Its
order is the order in which the selected ones run.
-/

namespace DeclLint

/-- The rules a configuration selects from. -/
structure Registry where
  rules : List Rule := []

namespace Registry

/-- Add a rule at the end. -/
def register (registry : Registry) (r : Rule) : Registry := ⟨registry.rules ++ [r]⟩

/-- The rules that come with the program. -/
def builtin : Registry := Registry.register {} RuntimeLet.rule

/-- The identifiers of the rules, in order. -/
def ruleIds (registry : Registry) : List String := registry.rules.map Rule.id

@[simp] theorem ruleIds_register (registry : Registry) (r : Rule) :
    (registry.register r).ruleIds = registry.ruleIds ++ [r.id] := by
  simp [ruleIds, register]

end Registry

end DeclLint
