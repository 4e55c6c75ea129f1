import DeclLint.Text.Offset

/-!
# Lines and columns

A line ends after its `\n`; lines and columns count from one, columns in
characters.  The end of the text is a position of its last line.

* `Text.lineAndCharacter?` — the position of a character offset;
* `Text.line?` — the text of a line, without its ending;
* `lineBreaks_append` — line breaks of a concatenation add up.
-/

namespace DeclLint

/-- Number of line breaks among some characters. -/
def lineBreaks (cs : List Char) : Nat := cs.count '\n'

/-- Line breaks of a concatenation add up. -/
theorem lineBreaks_append (xs ys : List Char) :
    lineBreaks (xs ++ ys) = lineBreaks xs + lineBreaks ys :=
  List.count_append

/-- A position as a line and a column. -/
structure LinePosition where
  line : Nat
  character : Nat
deriving DecidableEq, Repr, Inhabited

namespace LinePosition

/-- The first position of a text. -/
def start : LinePosition := ⟨1, 1⟩

/-- The position after one more character. -/
def advance (p : LinePosition) (c : Char) : LinePosition :=
  if c = '\n' then ⟨p.line + 1, 1⟩ else ⟨p.line, p.character + 1⟩

end LinePosition

/-- The characters after `n` line breaks, if there are as many. -/
def dropLines : Nat → List Char → Option (List Char)
  | 0, cs => some cs
  | n + 1, cs =>
      match cs.dropWhile (· ≠ '\n') with
      | [] => none
      | _ :: rest => dropLines n rest

/-- A line without one carriage return at its end. -/
def dropTrailingReturn (line : List Char) : List Char :=
  if line.getLast? = some '\r' then line.dropLast else line

namespace Text

/-- The line and column of a character offset inside the text or at its end. -/
def lineAndCharacter? (t : Text) (offset : Nat) : Option LinePosition :=
  if t.charLength < offset then none
  else some ((t.chars.take offset).foldl LinePosition.advance LinePosition.start)

/-- The text of a line, counted from one, without its line break and without
one carriage return before it. -/
def line? (t : Text) : Nat → Option String
  | 0 => none
  | n + 1 => (dropLines n t.chars).map fun cs =>
      String.ofList (dropTrailingReturn (cs.takeWhile (· ≠ '\n')))

end Text

end DeclLint
