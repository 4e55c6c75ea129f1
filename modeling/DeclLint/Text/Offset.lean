import DeclLint.Text.Range

/-!
# One text, indexed in bytes and in characters

A text is the list of its characters, which are Unicode scalar values; a byte
offset counts bytes of the UTF-8 form.  The two indexings agree exactly at the
character boundaries, the end of the text included, so every conversion is
partial and says why it fails.

* `Text.toCharOffset`, `Text.toByteOffset` — offsets, one way and the other;
* `Text.toCharRange`, `Text.toByteRange` — spans: first an end that does not fit
  a word is refused, then the start is looked up, then the end;
* `Text.sliceBytes`, `Text.sliceChars` — the text of a span;
* `charIndexFrom?_eq_some_iff` — an offset in bytes has a character index
  exactly when it is the size of that many leading characters.
-/

namespace DeclLint

/-- Why a coordinate does not map onto a text. -/
inductive CoordinateError where
  | byteOffsetOutOfBounds (offset length : Nat)
  | notCharBoundary (offset : Nat)
  | charOffsetOutOfBounds (offset length : Nat)
deriving DecidableEq, Repr

namespace CoordinateError

/-- The sentence that reports the error. -/
def message : CoordinateError → String
  | byteOffsetOutOfBounds offset length =>
      s!"byte offset {offset} is beyond the end of the text ({length} bytes)"
  | notCharBoundary offset =>
      s!"byte offset {offset} does not fall on a character boundary"
  | charOffsetOutOfBounds offset length =>
      s!"character offset {offset} is beyond the end of the text ({length} characters)"

end CoordinateError

/-- Size of a run of characters in UTF-8. -/
def utf8Size : List Char → Nat
  | [] => 0
  | c :: cs => c.utf8Size + utf8Size cs

@[simp] theorem utf8Size_nil : utf8Size [] = 0 := rfl

@[simp] theorem utf8Size_cons (c : Char) (cs : List Char) :
    utf8Size (c :: cs) = c.utf8Size + utf8Size cs := rfl

@[simp] theorem utf8Size_append (xs ys : List Char) :
    utf8Size (xs ++ ys) = utf8Size xs + utf8Size ys := by
  induction xs with
  | nil => simp
  | cons c cs ih => simp [ih, Nat.add_assoc]

/-- The character index of a byte offset, counted from `index`.  An offset
inside a character or past the end has none. -/
def charIndexFrom? : List Char → Nat → Nat → Option Nat
  | _, 0, index => some index
  | [], _ + 1, _ => none
  | c :: cs, offset + 1, index =>
      if offset + 1 < c.utf8Size then none
      else charIndexFrom? cs (offset + 1 - c.utf8Size) (index + 1)

/-- The byte offset of a character index, counted from `offset`. -/
def byteIndexFrom? : List Char → Nat → Nat → Option Nat
  | _, 0, offset => some offset
  | [], _ + 1, _ => none
  | c :: cs, index + 1, offset => byteIndexFrom? cs index (offset + c.utf8Size)

/-- An offset in bytes has a character index exactly when it is the size of
that many leading characters. -/
theorem charIndexFrom?_eq_some_iff {cs : List Char} {offset index found : Nat} :
    charIndexFrom? cs offset index = some found ↔
      ∃ front back, cs = front ++ back ∧ offset = utf8Size front ∧
        found = index + front.length := by
  fun_induction charIndexFrom? cs offset index generalizing found with
  | case1 cs index =>
      constructor
      · intro h
        exact ⟨[], cs, rfl, rfl, by simpa using h.symm⟩
      · rintro ⟨front, back, -, hsize, hfound⟩
        cases front with
        | nil => simp [hfound]
        | cons c front =>
            have := c.utf8Size_pos
            simp at hsize
            omega
  | case2 offset index =>
      simp only [reduceCtorEq, false_iff, not_exists, not_and]
      intro front back hcs hsize
      have : front = [] := (List.append_eq_nil_iff.mp hcs.symm).1
      simp [this] at hsize
  | case3 c cs offset index hlt =>
      simp only [reduceCtorEq, false_iff, not_exists, not_and]
      intro front back hcs hsize
      cases front with
      | nil => simp at hsize
      | cons d front =>
          obtain ⟨rfl, -⟩ := List.cons.inj hcs
          simp at hsize
          omega
  | case4 c cs offset index hle ih =>
      rw [ih]
      constructor
      · rintro ⟨front, back, rfl, hsize, rfl⟩
        exact ⟨c :: front, back, rfl, by simp; omega, by simp; omega⟩
      · rintro ⟨front, back, hcs, hsize, rfl⟩
        cases front with
        | nil => simp at hsize
        | cons d front =>
            obtain ⟨rfl, rfl⟩ := List.cons.inj hcs
            exact ⟨front, back, rfl, by simp at hsize; omega, by simp; omega⟩

/-- A character index has a byte offset exactly when that many characters
lead the text, and then it is their size. -/
theorem byteIndexFrom?_eq_some_iff {cs : List Char} {index offset found : Nat} :
    byteIndexFrom? cs index offset = some found ↔
      ∃ front back, cs = front ++ back ∧ index = front.length ∧
        found = offset + utf8Size front := by
  fun_induction byteIndexFrom? cs index offset generalizing found with
  | case1 cs offset =>
      constructor
      · intro h
        exact ⟨[], cs, rfl, rfl, by simpa using h.symm⟩
      · rintro ⟨front, back, -, hlen, hfound⟩
        have : front = [] := List.length_eq_zero_iff.mp hlen.symm
        simp [hfound, this]
  | case2 index offset =>
      simp only [reduceCtorEq, false_iff, not_exists, not_and]
      intro front back hcs hlen
      have : front = [] := (List.append_eq_nil_iff.mp hcs.symm).1
      simp [this] at hlen
  | case3 c cs index offset ih =>
      rw [ih]
      constructor
      · rintro ⟨front, back, rfl, rfl, rfl⟩
        exact ⟨c :: front, back, rfl, rfl, by simp; omega⟩
      · rintro ⟨front, back, hcs, hlen, rfl⟩
        cases front with
        | nil => simp at hlen
        | cons d front =>
            obtain ⟨rfl, rfl⟩ := List.cons.inj hcs
            exact ⟨front, back, rfl, by simpa using hlen, by simp; omega⟩

/-- A text, character by character. -/
structure Text where
  chars : List Char
deriving DecidableEq, Repr, Inhabited

namespace Text

/-- The text that a string holds. -/
def ofString (s : String) : Text := ⟨s.toList⟩

/-- The text as a string. -/
def contents (t : Text) : String := String.ofList t.chars

@[simp] theorem contents_ofString (s : String) : (ofString s).contents = s :=
  String.ofList_toList

@[simp] theorem ofString_contents (t : Text) : ofString t.contents = t := by
  simp [ofString, contents]

/-- Number of bytes. -/
def byteLength (t : Text) : Nat := utf8Size t.chars

/-- Number of characters. -/
def charLength (t : Text) : Nat := t.chars.length

/-- The character offset of a byte offset. -/
def toCharOffset (t : Text) (offset : Nat) : Except CoordinateError Nat :=
  match charIndexFrom? t.chars offset 0 with
  | some index => .ok index
  | none =>
      if t.byteLength < offset then .error (.byteOffsetOutOfBounds offset t.byteLength)
      else .error (.notCharBoundary offset)

/-- The byte offset of a character offset. -/
def toByteOffset (t : Text) (offset : Nat) : Except CoordinateError Nat :=
  match byteIndexFrom? t.chars offset 0 with
  | some index => .ok index
  | none => .error (.charOffsetOutOfBounds offset t.charLength)

/-- The span of characters that a span of bytes covers.  An end that fits no
word is reported as the largest offset. -/
def toCharRange (t : Text) (r : ByteRange) : Except CoordinateError CharRange :=
  match r.stop? with
  | none => .error (.byteOffsetOutOfBounds maxOffset t.byteLength)
  | some stop => do
      let start ← t.toCharOffset r.location
      let stop ← t.toCharOffset stop
      pure ⟨start, stop - start⟩

/-- The span of bytes that a span of characters covers.  An end that fits no
word is reported as the largest offset. -/
def toByteRange (t : Text) (r : CharRange) : Except CoordinateError ByteRange :=
  match r.stop? with
  | none => .error (.charOffsetOutOfBounds maxOffset t.charLength)
  | some stop => do
      let start ← t.toByteOffset r.location
      let stop ← t.toByteOffset stop
      pure ⟨start, stop - start⟩

/-- The characters at the places of a span, as many as there are. -/
def slice (t : Text) (r : CharRange) : String :=
  String.ofList ((t.chars.drop r.location).take r.length)

/-- The text of a span of bytes. -/
def sliceBytes (t : Text) (r : ByteRange) : Except CoordinateError String := do
  let chars ← t.toCharRange r
  pure (t.slice chars)

/-- The text of a span of characters. -/
def sliceChars (t : Text) (r : CharRange) : Except CoordinateError String := do
  let _ ← t.toByteRange r
  pure (t.slice r)

/-- The text with the characters of a span replaced. -/
def splice (t : Text) (r : CharRange) (replacement : String) : Text :=
  ⟨t.chars.take r.location ++ replacement.toList ++ t.chars.drop r.stop⟩

end Text

end DeclLint
