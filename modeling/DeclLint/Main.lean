import DeclLint.CommandLine.Program
import Std.Time.DateTime.Timestamp

/-!
# The command line

The operations of the real machine, and the program on it.
-/

namespace DeclLint

namespace RealMachine

/-- The number and the words of an error that the operating system reports. -/
def numbered? : IO.Error → Option (UInt32 × String)
  | .alreadyExists _ code details | .permissionDenied _ code details
  | .resourceExhausted _ code details | .inappropriateType _ code details
  | .noSuchThing _ code details | .invalidArgument _ code details
  | .interrupted _ code details | .noFileOrDirectory _ code details
  | .otherError code details | .resourceBusy code details | .resourceVanished code details
  | .unsupportedOperation code details | .hardwareFault code details
  | .unsatisfiedConstraints code details | .illegalOperation code details
  | .protocolError code details | .timeExpired code details => some (code, details)
  | .unexpectedEof | .userError _ => none

/-- The reason of a failed operation. -/
def faultOf (e : IO.Error) : FileFault :=
  match numbered? e with
  | some (2, _) => .notFound
  | some (20, _) => .notDirectory
  | some (21, _) => .isDirectory
  | some (code, details) => .other s!"{details} (os error {code})"
  | none => .other (toString e)

/-- Do an operation that may fail. -/
def attempt {α : Type} (operation : IO α) : IO (Except FileFault α) := do
  match ← operation.toBaseIO with
  | .ok a => return .ok a
  | .error e => return .error (faultOf e)

/-- An entry of a directory. -/
def entry (directory name : String) : IO.FS.DirEntry := ⟨directory, name⟩

/-- What kind of thing is at a path, behind any links. -/
def typeAt? (path : String) : IO (Option IO.FS.FileType) := do
  match ← (entry path "").root.metadata.toBaseIO with
  | .ok found => return some found.type
  | .error _ => return none

/-- Everything below a directory.  Links to files count as files, links to
directories are not followed. -/
partial def below (path : String) : IO Listing := do
  let names ← match ← (entry path "").root.readDir.toBaseIO with
    | .ok entries => pure (entries.toList.map IO.FS.DirEntry.fileName)
    | .error _ => pure []
  let entries ← names.filterMapM fun name => do
    let inside := Path.join path name
    match ← (entry inside "").root.symlinkMetadata.toBaseIO with
    | .error _ => return none
    | .ok found =>
        match found.type with
        | .dir => return some (name, ← below inside)
        | .file => return some (name, .file ())
        | _ =>
            if (← typeAt? inside) matches some .file then return some (name, .file ())
            else return none
  return .directory entries

instance : Host IO where
  survey path := do
    match ← typeAt? path with
    | some .dir => return some (← below path)
    | some .file => return some (.file ())
    | _ => return none
  read path := attempt (IO.FS.readBinFile path)
  write path text := attempt (IO.FS.writeFile path text)
  append path text := attempt do
    let handle ← IO.FS.Handle.mk path .append
    handle.putStr text
  makeDirectories path := attempt (IO.FS.createDirAll path)
  isDirectory? path := do
    match ← typeAt? path with
    | some .dir => return some true
    | some .file => return some false
    | _ => return none
  currentDirectory := do
    match ← IO.currentDir.toBaseIO with
    | .ok path => return some path.toString
    | .error _ => return none
  time := do return (← Std.Time.Timestamp.now).toSecondsSinceUnixEpoch.val.toNat
  print
    | .output, line => IO.println line
    | .errors, line => IO.eprintln line

/-- Whether colours are wanted: forced or forbidden by the environment, otherwise
shown on terminals. -/
def wantsColors : IO Bool := do
  let forced := (← IO.getEnv "CLICOLOR_FORCE").any (· != "0")
  let forbidden := (← IO.getEnv "NO_COLOR").isSome
  let allowed := (← IO.getEnv "CLICOLOR").all (· != "0")
  let onTerminal ← (← IO.getStdout).isTty
  return forced || (!forbidden && allowed && onTerminal)

end RealMachine

end DeclLint

/-- Run the program on this machine. -/
def main (arguments : List String) : IO UInt32 := do
  let colored ← DeclLint.RealMachine.wantsColors
  let code ← DeclLint.Program.execute colored arguments
  return UInt32.ofNat code
