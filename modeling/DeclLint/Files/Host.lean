import DeclLint.Files.Fault
import DeclLint.Files.Tree

/-!
# The machine a run happens on

A run reads and writes files, asks for the time and prints.  It does so through
the operations below, which a monad has to provide: a real machine, or a value
that stands for one.
-/

namespace DeclLint

/-- Where printed lines go. -/
inductive Channel where
  | output
  | errors
deriving DecidableEq, Repr

/-- The operations of a machine. -/
class Host (m : Type → Type) where
  /-- What is at a path, with everything below it. -/
  survey : String → m (Option Listing)
  /-- The contents of a file. -/
  read : String → m (Except FileFault ByteArray)
  /-- Give a file new contents; a missing file is made. -/
  write : String → String → m (Except FileFault Unit)
  /-- Add a text at the end of a file; a missing file is made. -/
  append : String → String → m (Except FileFault Unit)
  /-- Make a directory and those it is in, where they are missing. -/
  makeDirectories : String → m (Except FileFault Unit)
  /-- Whether something is at a path, and if so, whether it is a directory. -/
  isDirectory? : String → m (Option Bool)
  /-- The path of the current directory from the root. -/
  currentDirectory : m (Option String)
  /-- Seconds since the beginning of 1970. -/
  time : m Nat
  /-- Print a line. -/
  print : Channel → String → m Unit

namespace Host

variable {m : Type → Type} [Monad m] [Host m]

/-- The text of a file. -/
def readText (path : String) : m (Except FileFault String) := do
  return (← read path) >>= textOf

/-- Whether a file, and no directory, is at a path. -/
def isFile (path : String) : m Bool := do
  return (← isDirectory? path) == some false

/-- Whether anything is at a path. -/
def exists? (path : String) : m Bool := do
  return (← isDirectory? path).isSome

end Host

end DeclLint
