import DeclLint.Location

/-!
# The position behind some leading characters

A place of a text is told by the characters before it.  Its line is one more than
the line breaks among them, its column one more than the characters behind the last
of these.

* `Text.before` — the characters before a span of bytes;
* `Text.lineAndCharacter?_of_append` — the position that a text looks up;
* `Location.ofCharOffset?_of_append` — the location in a file.
-/

namespace DeclLint

/-- The characters of the last line of some characters. -/
def lastLine (cs : List Char) : List Char := (cs.reverse.takeWhile (· ≠ '\n')).reverse

namespace LinePosition

/-- The position behind some leading characters of a text. -/
def behind (front : List Char) : LinePosition :=
  ⟨1 + lineBreaks front, 1 + (lastLine front).length⟩

/-- **Counting character by character.**  It leads to the position behind them.  The
induction is on the last character first, which the column depends on. -/
theorem foldl_advance_start (front : List Char) : front.foldl advance start = behind front := by
  induction hfront : front.reverse generalizing front with
  | nil =>
      obtain rfl : front = [] := List.reverse_eq_nil_iff.mp hfront
      rfl
  | cons c cs ih =>
      have hsplit : front = cs.reverse ++ [c] := by
        rw [← List.reverse_cons, ← hfront, List.reverse_reverse]
      have hbefore := ih cs.reverse (List.reverse_reverse cs)
      rw [hsplit, List.foldl_append, hbefore]
      by_cases hc : c = '\n'
      · simp [advance, behind, lastLine, lineBreaks, hc, Nat.add_assoc]
      · simp [advance, behind, lastLine, lineBreaks, hc, Nat.add_comm]

end LinePosition

/-- The characters of a text before a span of bytes; none if the span begins inside of
a character or past the end. -/
def Text.before (t : Text) (range : ByteRange) : List Char :=
  t.chars.take ((charIndexFrom? t.chars range.location 0).getD 0)

/-- The characters before a span are those whose size is its location. -/
theorem Text.before_of_append {t : Text} {front back : List Char} {range : ByteRange}
    (h : t.chars = front ++ back) (hlocation : range.location = utf8Size front) :
    t.before range = front := by
  have hindex : charIndexFrom? t.chars range.location 0 = some front.length :=
    charIndexFrom?_eq_some_iff.mpr ⟨front, back, h, hlocation, by simp⟩
  rw [Text.before, hindex, Option.getD_some, h, List.take_left' rfl]

/-- The position behind some leading characters is looked up at their number. -/
theorem Text.lineAndCharacter?_of_append {t : Text} {front back : List Char}
    (h : t.chars = front ++ back) :
    t.lineAndCharacter? front.length = some (.behind front) := by
  have hinside : ¬ t.charLength < front.length := by
    simp [Text.charLength, h]
  have htake : t.chars.take front.length = front := by simp [h]
  rw [Text.lineAndCharacter?, if_neg hinside, htake, LinePosition.foldl_advance_start]

namespace Location

/-- The location behind some leading characters of a file. -/
def behind (file : Option String) (front : List Char) : Location :=
  ⟨file, (LinePosition.behind front).line, (LinePosition.behind front).character, front.length⟩

/-- **Locations in a file.**  The location of a character offset is the one behind as
many leading characters. -/
theorem ofCharOffset?_of_append {t : Text} {front back : List Char} (h : t.chars = front ++ back)
    (file : Option String) : ofCharOffset? file t front.length = some (behind file front) := by
  rw [ofCharOffset?, Text.lineAndCharacter?_of_append h]
  rfl

end Location

end DeclLint
