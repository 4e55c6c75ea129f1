import DeclLint.Files.Host
import DeclLint.Files.Path
import DeclLint.Log

/-!
# Finding source files

Every path that is named is searched.  A file counts if its name ends in
`.swift`; a directory is searched with all below it, in the order of the names,
passing over what is excluded.  What is named itself is never passed over.

* `sourceFilesBelow` — the source files at a path;
* `findSourceFiles` — the source files at several paths.
-/

namespace DeclLint

/-- Whether a path names a source file. -/
def isSourcePath (path : String) : Bool := Path.extension? path == some "swift"

/-- Whether a pattern excludes a path.  A pattern with a slash is compared with
the end of the path, any other with the file name. -/
def matchesPattern (path pattern : String) : Bool :=
  match Path.fileName? path with
  | none => false
  | some name => if pattern.toList.contains '/' then Path.endsWith path pattern else name == pattern

/-- Whether one of some patterns excludes a path. -/
def isExcluded (patterns : List String) (path : String) : Bool :=
  patterns.any (matchesPattern path)

/-- Bring entries into the order of their names. -/
def sortByName {α : Type} (entries : List (String × α)) : List (String × α) :=
  entries.mergeSort fun a b => decide (a.1 ≤ b.1)

mutual

/-- The source files at a path. -/
def sourceFilesBelow (patterns : List String) (path : String) : Listing → List String
  | .file _ => if isSourcePath path then [path] else []
  | .directory entries => (sortByName (sourceFilesIn patterns path entries)).flatMap Prod.snd

/-- The source files at each entry of a directory that is not excluded. -/
def sourceFilesIn (patterns : List String) (directory : String) :
    List (String × Listing) → List (String × List String)
  | [] => []
  | (name, below) :: entries =>
      let path := Path.join directory name
      if isExcluded patterns path then sourceFilesIn patterns directory entries
      else (name, sourceFilesBelow patterns path below) ::
        sourceFilesIn patterns directory entries

end

variable {m : Type → Type} [Monad m] [Host m]

/-- The source files at a path; a path with nothing there is noted. -/
def findAt (patterns : List String) (path : String) : m (Logged (List String)) := do
  match ← Host.survey path with
  | some found => return pure (sourceFilesBelow patterns path found)
  | none => return do
      Logged.note .warning s!"{path}: no such file or directory"
      return []

/-- The source files at several paths, in the order of the paths. -/
def findSourceFiles (patterns paths : List String) : m (Logged (List String)) := do
  let found ← paths.mapM (findAt patterns)
  return List.flatten <$> Logged.sequence found

end DeclLint
