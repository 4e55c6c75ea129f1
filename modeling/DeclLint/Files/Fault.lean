/-!
# What can go wrong with a file

A file operation that fails names its reason, in the words of the operating
system.  Text is UTF-8; a file that holds anything else cannot be read as text.
-/

namespace DeclLint

/-- Why a file operation failed. -/
inductive FileFault where
  | notFound
  | notDirectory
  | isDirectory
  | notText
  | other (reason : String)
deriving DecidableEq, Repr

namespace FileFault

/-- The reason in words. -/
def message : FileFault → String
  | notFound => "No such file or directory (os error 2)"
  | notDirectory => "Not a directory (os error 20)"
  | isDirectory => "Is a directory (os error 21)"
  | notText => "stream did not contain valid UTF-8"
  | other reason => reason

end FileFault

/-- The text that the contents of a file spell. -/
def textOf (contents : ByteArray) : Except FileFault String :=
  match String.fromUTF8? contents with
  | some text => .ok text
  | none => .error .notText

end DeclLint
