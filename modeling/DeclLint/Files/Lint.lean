import DeclLint.Declaration.StructureJson
import DeclLint.FileResult
import DeclLint.Files.Host

/-!
# Linting and correcting files

A file is read, linted or corrected, and written back if anything was corrected.
A file that cannot be read or written has a result that says so.

* `Linter.lintFile`, `Linter.lintFileWithStructure`, `Linter.correctFile` — one
  file;
* `Linter.lintFiles`, `Linter.correctFiles` — several, in their order.
-/

namespace DeclLint

namespace Linter

variable {m : Type → Type} [Monad m] [Host m]

/-- Lint a file. -/
def lintFile (linter : Linter) (producer : StructureProducer) (path : String) :
    m (Logged LintResult) := do
  match ← Host.readText path with
  | .error e => return pure (.ofError path (.unreadable e))
  | .ok source => return linter.lintSource producer path source

/-- Lint a source text with the declaration tree that a JSON text spells. -/
def lintWithStructure (linter : Linter) (path source json : String) : Logged LintResult :=
  match Declaration.ofStructureJson json with
  | .error e => pure (.ofError path (.unparsable e))
  | .ok tree => do
      let violations ← linter.lint (SourceFile.withTree (some path) source tree)
      return { path := path, violations := violations }

/-- Lint a file with the declaration tree that another file holds.  If neither
can be read, the first one is reported. -/
def lintFileWithStructure (linter : Linter) (path structurePath : String) :
    m (Logged LintResult) := do
  let source ← Host.readText path
  let tree ← Host.readText structurePath
  match source, tree with
  | .ok source, .ok tree => return linter.lintWithStructure path source tree
  | .error e, _ => return pure (.ofError path (.unreadable e))
  | _, .error e => return pure (.ofError path (.unreadable e))

/-- Correct a file. -/
def correctFile (linter : Linter) (producer : StructureProducer) (path : String) :
    m (Logged CorrectionResult) := do
  match ← Host.readText path with
  | .error e => return pure (.ofError path (.unreadable e))
  | .ok source =>
      let result := linter.correctSource producer path source
      match result.value.corrected with
      | none => return result
      | some contents =>
          match ← Host.write path contents with
          | .error e => return do
              let _ ← result
              return .ofError path (.unwritable e)
          | .ok _ => return do
              let corrected ← result
              Logged.note .info s!"{path}: applied {corrected.applied.length} correction(s)"
              return corrected

/-- Lint several files. -/
def lintFiles (linter : Linter) (producer : StructureProducer) (paths : List String) :
    m (Logged (List LintResult)) := do
  return Logged.sequence (← paths.mapM (linter.lintFile producer))

/-- Correct several files. -/
def correctFiles (linter : Linter) (producer : StructureProducer) (paths : List String) :
    m (Logged (List CorrectionResult)) := do
  return Logged.sequence (← paths.mapM (linter.correctFile producer))

end Linter

end DeclLint
