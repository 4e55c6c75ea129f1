/-!
# Paths

A path is a text in which slashes separate names.  Its components leave out what
has no meaning: repeated and trailing slashes, and every `.` but a leading one.
The text itself is kept as it is, so a path made from another still looks like
it.

* `Path.components` — the names of a path;
* `Path.join` — a path inside a directory;
* `Path.parents` — the directories that a path is in, the nearest first;
* `Path.endsWith` — whether a path ends with the components of another;
* `pieces_ne_nil` — every path has a piece.
-/

namespace DeclLint

namespace Path

/-- Cut some characters at every slash. -/
def cutAtSlashes : List Char → List (List Char)
  | [] => [[]]
  | c :: cs =>
      match cutAtSlashes cs with
      | [] => [[c]]
      | piece :: more => if c = '/' then [] :: piece :: more else (c :: piece) :: more

/-- What stands between the slashes of a path. -/
def pieces (p : String) : List String := (cutAtSlashes p.toList).map String.ofList

theorem cutAtSlashes_ne_nil (cs : List Char) : cutAtSlashes cs ≠ [] := by
  cases cs with
  | nil => simp [cutAtSlashes]
  | cons c cs => simp only [cutAtSlashes]; split <;> (try split) <;> simp

/-- Every path has a piece. -/
theorem pieces_ne_nil (p : String) : pieces p ≠ [] := by
  simpa [pieces] using cutAtSlashes_ne_nil p.toList

/-- Whether a piece behind the first one has no meaning. -/
def isVoid (piece : String) : Bool := piece == "" || piece == "."

/-- Where a piece leads from a place, which is given by the names that lead
there from the root, last one first. -/
def advance (place : List String) (piece : String) : List String :=
  if isVoid piece then place else if piece = ".." then place.tail else piece :: place

/-- The components of a path; `/` stands for the root. -/
def components (p : String) : List String :=
  match pieces p with
  | [] => []
  | first :: more =>
      let names := more.filter fun piece => !isVoid piece
      if first ≠ "" then first :: names
      else if p.isEmpty then []
      else "/" :: names

/-- The last component, if it is a name. -/
def fileName? (p : String) : Option String :=
  (components p).getLast?.filter fun name => name != "/" && name != "." && name != ".."

/-- The part of the file name behind its last dot, unless that dot comes first. -/
def extension? (p : String) : Option String := do
  let reversed := (← fileName? p).toList.reverse
  match reversed.dropWhile (· ≠ '.') with
  | _ :: _ :: _ => some (String.ofList (reversed.takeWhile (· ≠ '.')).reverse)
  | _ => none

/-- A path inside a directory. -/
def join (directory name : String) : String :=
  if directory.isEmpty || directory.toList.getLast? == some '/' then directory ++ name
  else directory ++ "/" ++ name

/-- Whether a path ends with the components of another. -/
def endsWith (p suffix : String) : Bool := (components suffix).isSuffixOf (components p)

/-- Some pieces, last one first, without those at the end that have no meaning. -/
def dropVoid : List String → List String
  | piece :: before :: more =>
      if isVoid piece then dropVoid (before :: more) else piece :: before :: more
  | pieces => pieces

/-- The path that some pieces spell, last one first. -/
def spell : List String → String
  | [""] => "/"
  | pieces => "/".intercalate pieces.reverse

/-- The parents of the path that some pieces spell, last one first. -/
def parentsOf : List String → List String
  | [] => []
  | [first] => if first = "" then [] else [""]
  | piece :: before :: more =>
      if isVoid piece then parentsOf (before :: more)
      else spell (dropVoid (before :: more)) :: parentsOf (before :: more)

/-- The directories that a path is in, the nearest first.  The last one of a
relative path is empty, which is the current directory. -/
def parents (p : String) : List String := parentsOf (pieces p).reverse

end Path

end DeclLint
