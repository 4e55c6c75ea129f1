import DeclLint.Files.Path
import DeclLint.RunLog.EntryJson

/-!
# The run log

A run log is a file with one entry a line.  It is opened before a run, which
makes the file and the directories it is in where they are missing, and grows by
one line at the end of the run.

* `RunLog.openAt`, `RunLog.append` — before and after a run;
* `RunLog.read` — the lines of a log, each with the entry it spells, if any.
-/

namespace DeclLint

/-- The lines of a text, without their line breaks.  A line ends with a line
feed, which a carriage return may precede. -/
def linesOf : List Char → List (List Char)
  | [] => []
  | '\r' :: '\n' :: cs => [] :: linesOf cs
  | '\n' :: cs => [] :: linesOf cs
  | c :: cs =>
      match linesOf cs with
      | [] => [[c]]
      | line :: lines => (c :: line) :: lines

namespace RunLog

variable {m : Type → Type} [Monad m] [Host m]

/-- Make the directories that a file is in. -/
def makeParents (path : String) : m (Except FileFault Unit) := do
  match (Path.parents path).head? with
  | none => return .ok ()
  | some directory =>
      if directory.isEmpty || (← Host.exists? directory) then return .ok ()
      else Host.makeDirectories directory

/-- Make a log where it is missing. -/
def openAt (path : String) : m (Except FileFault Unit) := do
  match ← makeParents path with
  | .error e => return .error e
  | .ok _ => Host.append path ""

/-- Add an entry to a log. -/
def append (path : String) (entry : RunLogEntry) : m (Except FileFault Unit) :=
  Host.append path (entry.jsonLine ++ "\n")

/-- The lines of a log, each with the entry it spells, if any.  A log that cannot
be read has none. -/
def read (path : String) : m (List (String × Option RunLogEntry)) := do
  match ← Host.readText path with
  | .error _ => return []
  | .ok text => return (linesOf text.toList).map fun line =>
      let line := String.ofList line
      (line, RunLogEntry.ofJsonLine? line)

end RunLog

end DeclLint
