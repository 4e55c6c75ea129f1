import DeclLint.CorrectedText
import DeclLint.Directive
import DeclLint.Rule.Basic

/-!
# Running rules over a file

Every rule walks the declaration tree on its own.  Results come rule by rule,
each rule's own in document order.  A result that does not map onto the text is
noted and left out, as is one that a directive silences.

* `Linter.lint` — the violations of a file;
* `Linter.corrections` — the corrections that the fixes of its rules propose;
* `Linter.correct` — the file's text with these applied.
-/

namespace DeclLint

namespace Rule

/-- The spans that the declarations of a tree break the rule at.  A declaration
of unknown kind breaks none. -/
def detectAll (r : Rule) (file : SourceFile) (root : Declaration) : Logged (List ByteRange) :=
  root.visitAll fun container d =>
    match d.kind with
    | some kind => r.detect file kind d container
    | none => pure []

/-- Where a reported span begins.  A span that does not map onto the text is
noted. -/
def locate? (r : Rule) (file : SourceFile) (range : ByteRange) : Logged (Option Location) :=
  match file.text.toCharRange range with
  | .ok chars => pure (Location.ofCharOffset? file.path file.text chars.location)
  | .error e => do
      Logged.note .warning s!"{file.displayPath}: skipping {r.id} result: {e.message}"
      pure none

/-- The violation at a reported span, unless it is silenced. -/
def violation? (r : Rule) (file : SourceFile) (silencing : Silencing) (range : ByteRange) :
    Logged (Option Violation) := do
  let location? ← r.locate? file range
  match location? with
  | none => pure none
  | some location =>
      if silencing.isDisabled location.line r.id then pure none
      else pure (some
        { ruleId := r.id
          ruleName := r.description.name
          severity := r.severity
          message := r.message file range
          location := location })

/-- The correction of a reported span, unless it is silenced where the part to
replace begins.  A part that reaches outside the reported span, or does not map
onto the text, is noted. -/
def correction? (r : Rule) (fix : Fix) (index : Nat) (file : SourceFile)
    (silencing : Silencing) (detected : ByteRange) : Logged (Option Correction) := do
  let location? ← r.locate? file detected
  match location?, fix.range file detected with
  | some _, some part =>
      if !detected.contains part then
        Logged.note .warning
          s!"{file.displayPath}: {r.id} correction range escapes its violation, skipping"
        pure none
      else
        match fix.replacement file part, file.text.toCharRange part with
        | none, _ => pure none
        | some _, .error e => do
            Logged.note .warning s!"{file.displayPath}: skipping {r.id} correction: {e.message}"
            pure none
        | some replacement, .ok range =>
            pure do
              let location ← Location.ofCharOffset? file.path file.text range.location
              if silencing.isDisabled location.line r.id then none
              else some ⟨r.id, index, range, replacement, location⟩
  | _, _ => pure none

/-- The violations of a file. -/
def violations (r : Rule) (file : SourceFile) (root : Declaration) (silencing : Silencing) :
    Logged (List Violation) := do
  let detected ← r.detectAll file root
  Logged.filterMap (r.violation? file silencing) detected

/-- The corrections of a file; a rule without fix has none. -/
def corrections (r : Rule) (index : Nat) (file : SourceFile) (root : Declaration)
    (silencing : Silencing) : Logged (List Correction) :=
  match r.fix with
  | none => pure []
  | some fix => do
      let detected ← r.detectAll file root
      Logged.filterMap (r.correction? fix index file silencing) detected

end Rule

/-- Rules in the order in which they run. -/
structure Linter where
  rules : List Rule

namespace Linter

/-- The identifiers of the rules, in order. -/
def ruleIds (linter : Linter) : List String := linter.rules.map Rule.id

/-- Whether there is no rule to run. -/
def isEmpty (linter : Linter) : Bool := linter.rules.isEmpty

/-- The violations of every rule; a file without tree has none. -/
def lint (linter : Linter) (file : SourceFile) : Logged (List Violation) :=
  match file.tree with
  | .error _ => pure []
  | .ok root => do
      let silencing ← Silencing.ofSource file.text.contents
      Logged.flatMap (fun r => r.violations file root silencing) linter.rules

/-- The corrections of every rule; a file without tree has none. -/
def corrections (linter : Linter) (file : SourceFile) : Logged (List Correction) :=
  match file.tree with
  | .error _ => pure []
  | .ok root => do
      let silencing ← Silencing.ofSource file.text.contents
      Logged.flatMap (fun p => p.1.corrections p.2 file root silencing) linter.rules.zipIdx

/-- Apply every correction of a file to its text. -/
def correct (linter : Linter) (file : SourceFile) : Logged CorrectedText := do
  let corrections ← linter.corrections file
  CorrectedText.ofCorrections file.text corrections

end Linter

end DeclLint
