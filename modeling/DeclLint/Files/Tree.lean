/-!
# Trees of files

A directory holds files and directories under names.

* `FileTree.at?` — what is at a path of names;
* `FileTree.put` — a tree with something put at a path;
* `at?_put` — what was put is there.
-/

namespace DeclLint

/-- A file or a directory with everything below it. -/
inductive FileTree (α : Type) where
  | file (contents : α)
  | directory (entries : List (String × FileTree α))
deriving Inhabited

/-- What is known of a tree without looking into its files. -/
abbrev Listing := FileTree Unit

namespace FileTree

variable {α : Type}

/-- What a directory holds; a file holds nothing. -/
def entries : FileTree α → List (String × FileTree α)
  | file _ => []
  | directory entries => entries

/-- Whether a tree is a directory. -/
def isDirectory : FileTree α → Bool
  | file _ => false
  | directory _ => true

/-- What is at a path of names. -/
def at? : List String → FileTree α → Option (FileTree α)
  | [], t => some t
  | name :: path, t => (t.entries.lookup name).bind (at? path)

/-- Put something under a name. -/
def setEntry (name : String) (t : FileTree α) :
    List (String × FileTree α) → List (String × FileTree α)
  | [] => [(name, t)]
  | e :: entries => if name == e.1 then (name, t) :: entries else e :: setEntry name t entries

/-- A tree with something put at a path of names.  Directories on the way that
are missing are made. -/
def put (new : FileTree α) : List String → FileTree α → FileTree α
  | [], _ => new
  | name :: path, t =>
      let old := (t.entries.lookup name).getD (directory [])
      directory (setEntry name (put new path old) t.entries)

/-- An entry that was set is found under its name. -/
theorem lookup_setEntry (name : String) (t : FileTree α) (entries : List (String × FileTree α)) :
    (setEntry name t entries).lookup name = some t := by
  induction entries with
  | nil => simp [setEntry]
  | cons e entries ih =>
      obtain ⟨key, old⟩ := e
      simp only [setEntry]
      by_cases h : name = key
      · simp [h]
      · have hne : (name == key) = false := by simpa using h
        simp only [hne, Bool.false_eq_true, if_false]
        rw [List.lookup_cons, hne]
        exact ih

/-- What was put is there. -/
theorem at?_put (new : FileTree α) (path : List String) (t : FileTree α) :
    at? path (put new path t) = some new := by
  induction path generalizing t with
  | nil => rfl
  | cons name path ih => simp [put, at?, entries, lookup_setEntry, ih]

mutual

/-- A tree without the contents of its files. -/
def listing : FileTree α → Listing
  | file _ => file ()
  | directory entries => directory (listings entries)

/-- Some entries without the contents of their files. -/
def listings : List (String × FileTree α) → List (String × Listing)
  | [] => []
  | (name, t) :: entries => (name, listing t) :: listings entries

end

end FileTree

end DeclLint
