import DeclLint.Files.Host
import DeclLint.Files.Path

/-!
# A machine as a value

The files, the current directory, the time and everything printed so far.  Paths
lead through directories only: one that goes on behind a file, even by `.` or a
slash, leads nowhere.

* `Machine.locate` — the names that a path leads through, from the root;
* the instance of `Host` — the operations as changes of the machine.
-/

namespace DeclLint

/-- A machine. -/
structure Machine where
  /-- Everything below the root. -/
  files : FileTree ByteArray
  /-- The names that lead to the current directory from the root. -/
  directory : List String := []
  /-- Seconds since the beginning of 1970. -/
  time : Nat := 0
  output : List String := []
  errors : List String := []

namespace Machine

/-- Follow some pieces of a path from a place, which is given by the names that
lead there from the root, last one first.  What the last piece names need not be
there. -/
def follow (machine : Machine) (place : List String) :
    List String → Except FileFault (List String)
  | [] => .ok place
  | piece :: more =>
      match machine.files.at? place.reverse with
      | none => .error .notFound
      | some (.file _) => .error .notDirectory
      | some (.directory _) => machine.follow (Path.advance place piece) more

/-- Where a path starts: at the root or in the current directory. -/
def start (machine : Machine) (path : String) : List String :=
  if path.toList.head? = some '/' then [] else machine.directory.reverse

/-- The names that a path leads through, from the root. -/
def locate (machine : Machine) (path : String) : Except FileFault (List String) :=
  if path.isEmpty then .error .notFound
  else (machine.follow (machine.start path) (Path.pieces path)).map List.reverse

/-- What is at a path. -/
def look (machine : Machine) (path : String) : Except FileFault (FileTree ByteArray) := do
  match machine.files.at? (← machine.locate path) with
  | some t => .ok t
  | none => .error .notFound

/-- Where a file can be written.  A path that can only lead to a directory is
refused. -/
def target (machine : Machine) (path : String) : Except FileFault (List String) :=
  if path.isEmpty then .error .notFound
  else match Path.pieces path |>.reverse.dropWhile (· = "") with
    | [] => .error .isDirectory
    | last :: before => do
        let place ← machine.follow (machine.start path) (last :: before).reverse
        if path.toList.getLast? = some '/' ∨ last = "." ∨ last = ".." then .error .isDirectory
        else match machine.files.at? place.reverse with
          | some (.directory _) => .error .isDirectory
          | _ => .ok place.reverse

/-- The contents of the file at a path. -/
def contents (machine : Machine) (path : String) : Except FileFault ByteArray := do
  match ← machine.look path with
  | .file contents => .ok contents
  | .directory _ => .error .isDirectory

/-- The machine with a change to the contents of the file at a path; a missing
file is empty at first. -/
def change (machine : Machine) (path : String) (f : ByteArray → ByteArray) :
    Except FileFault Machine := do
  let names ← machine.target path
  let old := match machine.files.at? names with
    | some (.file contents) => contents
    | _ => ByteArray.empty
  .ok { machine with files := FileTree.put (.file (f old)) names machine.files }

/-- Make a directory at a place unless there is one. -/
def makeDirectory (machine : Machine) (place : List String) : Except FileFault Machine :=
  match machine.files.at? place.reverse with
  | some (.file _) => .error .notDirectory
  | some (.directory _) => .ok machine
  | none =>
      .ok { machine with files := FileTree.put (.directory []) place.reverse machine.files }

/-- Follow some pieces of a path from a place and make the directories that are
missing. -/
def descend (machine : Machine) (place : List String) :
    List String → Except FileFault Machine
  | [] => machine.makeDirectory place
  | piece :: more => do
      let machine ← machine.makeDirectory place
      machine.descend (Path.advance place piece) more

/-- Do a change that may fail. -/
def attempt (f : Machine → Except FileFault Machine) :
    StateM Machine (Except FileFault Unit) := fun machine =>
  match f machine with
  | .ok changed => (.ok (), changed)
  | .error e => (.error e, machine)

instance : Host (StateM Machine) where
  survey path machine := ((machine.look path).toOption.map FileTree.listing, machine)
  read path machine := (machine.contents path, machine)
  write path text := attempt fun machine => machine.change path fun _ => text.toUTF8
  append path text := attempt fun machine => machine.change path (· ++ text.toUTF8)
  makeDirectories path := attempt fun machine =>
    machine.descend (machine.start path) (Path.pieces path)
  isDirectory? path machine := ((machine.look path).toOption.map FileTree.isDirectory, machine)
  currentDirectory machine :=
    (some ("/" ++ "/".intercalate machine.directory), machine)
  time machine := (machine.time, machine)
  print channel line machine :=
    ((), match channel with
      | .output => { machine with output := machine.output ++ [line] }
      | .errors => { machine with errors := machine.errors ++ [line] })

end Machine

end DeclLint
