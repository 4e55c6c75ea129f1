import DeclLint.Declaration.ParseError
import DeclLint.Declaration.Tree
import DeclLint.Location
import DeclLint.Log

/-!
# A source file

The text of a file and the declaration tree that was derived from it, or why
there is none.  Every offset of a tree belongs to one text, so a changed file
has its tree derived anew.
-/

namespace DeclLint

/-- A way to derive the declaration tree of a source text. -/
abbrev StructureProducer := String → Except ParseError Declaration

/-- The text of a file and its declaration tree. -/
structure SourceFile where
  path : Option String
  text : Text
  tree : Except ParseError Declaration

namespace SourceFile

/-- The path shown for the file. -/
def displayPath (file : SourceFile) : String := file.path.getD memoryLabel

/-- A file whose tree is derived by `producer`; a failure is noted. -/
def parse (path : Option String) (contents : String) (producer : StructureProducer) :
    Logged SourceFile :=
  let file : SourceFile := ⟨path, .ofString contents, producer contents⟩
  match file.tree with
  | .ok _ => pure file
  | .error e => do
      Logged.note .debug s!"no structure for {file.displayPath}: {e.message}"
      pure file

/-- A file with a tree that is already known. -/
def withTree (path : Option String) (contents : String) (tree : Declaration) : SourceFile :=
  ⟨path, .ofString contents, .ok tree⟩

/-- The file with another text. -/
def withContents (file : SourceFile) (contents : String) (producer : StructureProducer) :
    Logged SourceFile :=
  parse file.path contents producer

/-- Why the file has no tree. -/
def parseError? (file : SourceFile) : Option ParseError :=
  match file.tree with
  | .ok _ => none
  | .error e => some e

@[simp] theorem value_parse (path : Option String) (contents : String)
    (producer : StructureProducer) :
    (parse path contents producer).value = ⟨path, .ofString contents, producer contents⟩ := by
  cases h : producer contents <;> simp [parse, h]

end SourceFile

end DeclLint
