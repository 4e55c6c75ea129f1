import DeclLint.Text.Line

/-!
# Where in a file a finding is

A location names the file, the line and column, and the character offset that
they belong to.
-/

namespace DeclLint

/-- A position in a file, in characters. -/
structure Location where
  /-- The file, unless the text has none. -/
  file : Option String
  /-- Line, counted from one. -/
  line : Nat
  /-- Column in characters, counted from one. -/
  character : Nat
  /-- Characters before the position. -/
  offset : Nat
deriving DecidableEq, Repr

/-- The name shown for a text that has no file. -/
def memoryLabel : String := "<memory>"

namespace Location

/-- The location of a character offset, unless it lies past the text. -/
def ofCharOffset? (file : Option String) (t : Text) (offset : Nat) : Option Location :=
  (t.lineAndCharacter? offset).map fun p => ⟨file, p.line, p.character, offset⟩

/-- `file:line:column`, as reports print it. -/
def render (l : Location) : String :=
  s!"{l.file.getD memoryLabel}:{l.line}:{l.character}"

end Location

end DeclLint
