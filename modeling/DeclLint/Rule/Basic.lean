import DeclLint.Finding
import DeclLint.Source.File

/-!
# Rules

A rule looks at one declaration at a time, with the one that directly contains
it, and reports spans of the text that break it.  Some rules can also correct
what they report: such a rule has a fix, which narrows a reported span to the
part to replace and says what it is replaced by.
-/

namespace DeclLint

/-- What a rule is about. -/
inductive RuleKind where
  | idiomatic
  | lint
  | metrics
  | performance
  | style
deriving DecidableEq, Repr

namespace RuleKind

/-- Every kind of rule, in the order of the declaration above. -/
def all : List RuleKind := [idiomatic, lint, metrics, performance, style]

/-- The word for a kind of rule. -/
def label : RuleKind → String
  | idiomatic => "idiomatic"
  | lint => "lint"
  | metrics => "metrics"
  | performance => "performance"
  | style => "style"

end RuleKind

/-- What is known of a rule beforehand.  In an example that breaks the rule,
`↓` stands before every violation; a correction pairs a text with its corrected
form. -/
structure RuleDescription where
  identifier : String
  name : String
  description : String
  kind : RuleKind
  /-- Whether the rule runs only when the configuration asks for it. -/
  optIn : Bool
  nonTriggeringExamples : List String := []
  triggeringExamples : List String := []
  corrections : List (String × String) := []
deriving DecidableEq, Repr

/-- How a rule corrects what it reports. -/
structure Fix where
  /-- The part of a reported span that is replaced, if any. -/
  range : SourceFile → ByteRange → Option ByteRange := fun _ detected => some detected
  /-- What that part is replaced by, if anything. -/
  replacement : SourceFile → ByteRange → Option String

/-- A rule with the severity its violations are reported with. -/
structure Rule where
  description : RuleDescription
  severity : Severity := .warning
  /-- The spans that a declaration of known kind breaks the rule at, given the
  declaration that directly contains it. -/
  detect : SourceFile → DeclarationKind → Declaration → Option Declaration →
    Logged (List ByteRange)
  /-- What is said of a reported span. -/
  message : SourceFile → ByteRange → String
  fix : Option Fix := none

namespace Rule

/-- The identifier of the rule. -/
def id (r : Rule) : String := r.description.identifier

/-- The rule with another severity. -/
def withSeverity (r : Rule) (severity : Severity) : Rule := { r with severity := severity }

end Rule

end DeclLint
