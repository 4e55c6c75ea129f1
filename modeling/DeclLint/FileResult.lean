import DeclLint.Files.Fault
import DeclLint.Linter

/-!
# The result of one file

Whatever happens to a file, its run ends in a result that names it: with the
findings, or with the sentence that says why there are none.
-/

namespace DeclLint

/-- What linting one file gave. -/
structure LintResult where
  path : String
  violations : List Violation := []
  error : Option String := none
deriving DecidableEq, Repr

/-- What correcting one file gave. -/
structure CorrectionResult where
  path : String
  applied : List Correction := []
  dropped : List Correction := []
  /-- The corrected text, if anything was corrected. -/
  corrected : Option String := none
  error : Option String := none
deriving DecidableEq, Repr

/-- Why a file gave no findings. -/
inductive FileError where
  | unreadable (fault : FileFault)
  | unwritable (fault : FileFault)
  | unparsable (e : ParseError)
deriving DecidableEq, Repr

/-- The sentence that reports the error. -/
def FileError.message : FileError → String
  | unreadable fault => s!"Failed to read file: {fault.message}"
  | unwritable fault => s!"Failed to write file: {fault.message}"
  | unparsable e => s!"Parse error: {e.message}"

namespace LintResult

/-- The result of a file that gave no findings. -/
def ofError (path : String) (e : FileError) : LintResult := { path := path, error := some e.message }

end LintResult

namespace CorrectionResult

/-- The result of a file that gave no findings. -/
def ofError (path : String) (e : FileError) : CorrectionResult :=
  { path := path, error := some e.message }

end CorrectionResult

namespace Linter

/-- Lint a source text. -/
def lintSource (linter : Linter) (producer : StructureProducer) (path source : String) :
    Logged LintResult := do
  let file ← SourceFile.parse (some path) source producer
  match file.parseError? with
  | some e => pure (.ofError path (.unparsable e))
  | none => do
      let violations ← linter.lint file
      pure { path := path, violations := violations }

/-- Correct a source text. -/
def correctSource (linter : Linter) (producer : StructureProducer) (path source : String) :
    Logged CorrectionResult := do
  let file ← SourceFile.parse (some path) source producer
  match file.parseError? with
  | some e => pure (.ofError path (.unparsable e))
  | none => do
      let outcome ← linter.correct file
      pure
        { path := path
          applied := outcome.applied
          dropped := outcome.dropped
          corrected := if outcome.changed then some outcome.contents else none }

end Linter

end DeclLint
