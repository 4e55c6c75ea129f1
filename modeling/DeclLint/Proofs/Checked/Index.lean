import DeclLint.Proofs.Checked.Correction
import DeclLint.Proofs.Text.Line
import Mathlib.Data.List.Nodup

/-!
# A text with an index

A text that is asked often is gone through once, and the places are kept at which its
characters and its lines begin.  Both lists increase, so a place is found by halving: the
middle of what is left is looked at until nothing is left.  The answers are those of the
text itself, and no access, sum or difference on the way can fail.

* `TextIndex.ofText` — the index, built in one pass;
* `Checked.search_eq`, `Checked.partitionPoint_eq` — searches by halving;
* `TextIndex.toCharOffset_eq`, `TextIndex.toByteOffset_eq` — offsets are looked up;
* `TextIndex.sliceBytes_eq`, `TextIndex.sliceChars_eq` — so are the ends of a span;
* `TextIndex.lineAndCharacter?_eq`, `TextIndex.line?_eq` — so are positions and lines.
-/

namespace DeclLint

/-- A text, the byte offset of every character and of the end, and the character offset at
which each line begins. -/
structure TextIndex where
  text : Text
  charStarts : List Nat
  lineStarts : List Nat

namespace TextIndex

/-- Take some characters into the index; `bytes` and `index` are the offsets of the first
one. -/
def extend (x : TextIndex) (bytes index : Nat) : List Char → TextIndex
  | [] => { x with charStarts := x.charStarts ++ [bytes] }
  | c :: cs =>
      let x := { x with charStarts := x.charStarts ++ [bytes] }
      let x := if c = '\n' then { x with lineStarts := x.lineStarts ++ [index + 1] } else x
      extend x (bytes + c.utf8Size) (index + 1) cs

/-- The index of a text. -/
def ofText (t : Text) : TextIndex := extend ⟨t, [], [0]⟩ 0 0 t.chars

end TextIndex

namespace Checked

variable {ε : Type}

/-- The place of an entry of an increasing list, between two places. -/
def search (as : List Nat) (key low high : Nat) : Checked ε (Option Nat) :=
  if low < high then do
    let middle := low + (high - low) / 2
    let found ← get as middle
    if found = key then pure (some middle)
    else if found < key then search as key (middle + 1) high
    else search as key low middle
  else pure none
termination_by high - low

/-- How many entries at the front of a list pass a test, between two numbers. -/
def partitionPoint (as : List Nat) (test : Nat → Bool) (low high : Nat) : Checked ε Nat :=
  if low < high then do
    let middle := low + (high - low) / 2
    let found ← get as middle
    if test found then partitionPoint as test (middle + 1) high
    else partitionPoint as test low middle
  else pure low
termination_by high - low

end Checked

namespace TextIndex

open Checked

/-- Number of characters. -/
def charLength (x : TextIndex) : Checked CoordinateError Nat := sub x.charStarts.length 1

/-- The character offset of a byte offset. -/
def toCharOffset (x : TextIndex) (offset : Nat) : Checked CoordinateError Nat :=
  if x.text.byteLength < offset then refuse (.byteOffsetOutOfBounds offset x.text.byteLength)
  else do
    match ← search x.charStarts offset 0 x.charStarts.length with
    | some index => pure index
    | none => refuse (.notCharBoundary offset)

/-- The byte offset of a character offset. -/
def toByteOffset (x : TextIndex) (offset : Nat) : Checked CoordinateError Nat :=
  match x.charStarts[offset]? with
  | some bytes => pure bytes
  | none => do
      let length ← x.charLength
      refuse (.charOffsetOutOfBounds offset length)

/-- The span of bytes that a span of characters covers. -/
def toByteRange (x : TextIndex) (r : CharRange) : Checked CoordinateError ByteRange :=
  match r.stop? with
  | none => do
      let length ← x.charLength
      refuse (.charOffsetOutOfBounds maxOffset length)
  | some stop => do
      let first ← x.toByteOffset r.location
      let last ← x.toByteOffset stop
      let length ← sub last first
      pure ⟨first, length⟩

/-- The span of characters that a span of bytes covers. -/
def toCharRange (x : TextIndex) (r : ByteRange) : Checked CoordinateError CharRange :=
  match r.stop? with
  | none => refuse (.byteOffsetOutOfBounds maxOffset x.text.byteLength)
  | some stop => do
      let first ← x.toCharOffset r.location
      let last ← x.toCharOffset stop
      let length ← sub last first
      pure ⟨first, length⟩

/-- The text of a span of bytes, cut out after both ends were looked up. -/
def sliceBytes (x : TextIndex) (r : ByteRange) : Checked CoordinateError String := do
  let _ ← x.toCharRange r
  let stop ← add r.location r.length
  slice x.text r.location stop

/-- The text of a span of characters. -/
def sliceChars (x : TextIndex) (r : CharRange) : Checked CoordinateError String := do
  let bytes ← x.toByteRange r
  let stop ← add bytes.location bytes.length
  slice x.text bytes.location stop

/-- The line and column of a character offset: the last line that begins there or before. -/
def lineAndCharacter? (x : TextIndex) (offset : Nat) :
    Checked CoordinateError (Option LinePosition) := do
  let length ← x.charLength
  if length < offset then pure none
  else do
    let begun ← partitionPoint x.lineStarts (· ≤ offset) 0 x.lineStarts.length
    let index ← sub begun 1
    let start ← get x.lineStarts index
    let behind ← sub offset start
    let line ← add index 1
    let character ← add behind 1
    pure (some ⟨line, character⟩)

/-- Where a line ends: at the break before the next one, or with the text. -/
def lineStop (x : TextIndex) (n : Nat) : Checked CoordinateError Nat :=
  match x.lineStarts[n]? with
  | some next => sub next 1
  | none => x.charLength

/-- The text of a line, counted from one, without one carriage return at its end. -/
def line? (x : TextIndex) : Nat → Checked CoordinateError (Option String)
  | 0 => pure none
  | n + 1 =>
      match x.lineStarts[n]? with
      | none => pure none
      | some start => do
          let stop ← x.lineStop (n + 1)
          let length ← sub stop start
          match ← attempt (x.sliceChars ⟨start, length⟩) with
          | .error _ => pure none
          | .ok line => pure (some (String.ofList (dropTrailingReturn line.toList)))

end TextIndex

/-! ## The index of a text -/

/-- The byte offsets at which some characters begin, and the one behind them; the first is
`bytes`. -/
def charStartsFrom : List Char → Nat → List Nat
  | [], bytes => [bytes]
  | c :: cs, bytes => bytes :: charStartsFrom cs (bytes + c.utf8Size)

/-- The character offsets behind the line breaks of some characters, which begin at
`index`. -/
def lineStartsFrom : List Char → Nat → List Nat
  | [], _ => []
  | c :: cs, index =>
      (if c = '\n' then [index + 1] else []) ++ lineStartsFrom cs (index + 1)

/-- One pass makes both lists. -/
theorem TextIndex.extend_eq (x : TextIndex) (bytes index : Nat) (cs : List Char) :
    x.extend bytes index cs =
      ⟨x.text, x.charStarts ++ charStartsFrom cs bytes,
        x.lineStarts ++ lineStartsFrom cs index⟩ := by
  induction cs generalizing x bytes index with
  | nil => simp [extend, charStartsFrom, lineStartsFrom]
  | cons c cs ih =>
      rw [extend, ih, charStartsFrom, lineStartsFrom]
      by_cases hc : c = '\n' <;> simp [hc]

theorem TextIndex.ofText_eq (t : Text) :
    ofText t = ⟨t, charStartsFrom t.chars 0, 0 :: lineStartsFrom t.chars 0⟩ := by
  rw [ofText, extend_eq]
  rfl

/-- A character is looked up where it begins. -/
theorem getElem?_charStartsFrom (cs : List Char) (bytes index : Nat) :
    (charStartsFrom cs bytes)[index]? = byteIndexFrom? cs index bytes := by
  induction cs generalizing bytes index with
  | nil => cases index <;> rfl
  | cons c cs ih =>
      cases index with
      | zero => rfl
      | succ index => exact ih (bytes + c.utf8Size) index

@[simp] theorem length_charStartsFrom (cs : List Char) (bytes : Nat) :
    (charStartsFrom cs bytes).length = cs.length + 1 := by
  induction cs generalizing bytes with
  | nil => rfl
  | cons c cs ih => rw [charStartsFrom, List.length_cons, ih, List.length_cons]

/-- Characters begin one behind the other. -/
theorem pairwise_charStartsFrom (cs : List Char) (bytes : Nat) :
    (charStartsFrom cs bytes).Pairwise (· < ·) ∧ ∀ start ∈ charStartsFrom cs bytes,
      bytes ≤ start := by
  induction cs generalizing bytes with
  | nil => simp [charStartsFrom]
  | cons c cs ih =>
      obtain ⟨hpairwise, hbehind⟩ := ih (bytes + c.utf8Size)
      have hsize : 0 < c.utf8Size := c.utf8Size_pos
      refine ⟨List.pairwise_cons.mpr ⟨fun start hstart => ?_, hpairwise⟩, fun start hstart => ?_⟩
      · have := hbehind start hstart
        omega
      · rcases List.mem_cons.mp hstart with rfl | hstart
        · exact Nat.le_refl _
        · exact Nat.le_of_add_right_le (hbehind start hstart)

/-- The line starts of two texts, one behind the other. -/
theorem lineStartsFrom_append (xs ys : List Char) (index : Nat) :
    lineStartsFrom (xs ++ ys) index =
      lineStartsFrom xs index ++ lineStartsFrom ys (index + xs.length) := by
  induction xs generalizing index with
  | nil => rfl
  | cons c xs ih =>
      rw [List.cons_append, lineStartsFrom, ih, lineStartsFrom, List.append_assoc,
        List.length_cons, Nat.add_right_comm, Nat.add_assoc]

/-- There is one line start for each line break; the first line has none here. -/
@[simp] theorem length_lineStartsFrom (cs : List Char) (index : Nat) :
    (lineStartsFrom cs index).length = lineBreaks cs := by
  induction cs generalizing index with
  | nil => rfl
  | cons c cs ih =>
      rw [lineStartsFrom, List.length_append, ih, lineBreaks, lineBreaks, List.count_cons,
        Nat.add_comm]
      by_cases hc : c = '\n' <;> simp [hc]

/-- A line that begins among some characters begins behind the first of them. -/
theorem mem_lineStartsFrom {cs : List Char} {index start : Nat}
    (h : start ∈ lineStartsFrom cs index) : index < start ∧ start ≤ index + cs.length := by
  induction cs generalizing index with
  | nil => cases h
  | cons c cs ih =>
      rcases List.mem_append.mp h with hstart | hstart
      · by_cases hc : c = '\n'
        · rw [if_pos hc, List.mem_singleton] at hstart
          simp only [List.length_cons]
          omega
        · rw [if_neg hc] at hstart
          cases hstart
      · have := ih hstart
        simp only [List.length_cons]
        omega

/-- The lines of a text begin one behind the other. -/
theorem pairwise_lineStartsFrom (cs : List Char) (index : Nat) :
    (index :: lineStartsFrom cs index).Pairwise (· < ·) := by
  refine List.pairwise_cons.mpr ⟨fun start hstart => (mem_lineStartsFrom hstart).1, ?_⟩
  induction cs generalizing index with
  | nil => exact .nil
  | cons c cs ih =>
      rw [lineStartsFrom]
      by_cases hc : c = '\n'
      · rw [if_pos hc, List.singleton_append]
        exact List.pairwise_cons.mpr
          ⟨fun start hstart => (mem_lineStartsFrom hstart).1, ih (index + 1)⟩
      · rw [if_neg hc, List.nil_append]
        exact ih (index + 1)

/-- **The line of a place.**  It is as many characters back as its line has before it. -/
theorem getElem?_lineStarts (front back : List Char) :
    (0 :: lineStartsFrom (front ++ back) 0)[lineBreaks front]? =
      some (front.length - (lastLine front).length) := by
  obtain ⟨hnone, hcases⟩ := lastLine_cases front
  generalize lastLine front = line at hnone hcases ⊢
  have hbreaks : lineBreaks line = 0 := List.count_eq_zero.mpr hnone
  rcases hcases with rfl | ⟨above, rfl⟩
  · simp [hbreaks]
  · have hlines : lineBreaks (above ++ '\n' :: line) = lineBreaks above + 1 := by
      rw [lineBreaks_append, lineBreaks, lineBreaks, List.count_cons_self, ← lineBreaks,
        ← lineBreaks, hbreaks]
    rw [hlines, List.getElem?_cons_succ, List.append_assoc, List.cons_append,
      lineStartsFrom_append, ← length_lineStartsFrom above 0,
      List.getElem?_append_right (Nat.le_refl _), Nat.sub_self, lineStartsFrom]
    simp
    omega

/-- **The lines begun.**  Up to a place one line more has begun than was ended. -/
theorem countP_lineStarts (front back : List Char) :
    (0 :: lineStartsFrom (front ++ back) 0).countP (· ≤ front.length) =
      lineBreaks front + 1 := by
  have hfront : (lineStartsFrom front 0).countP (· ≤ front.length) = lineBreaks front := by
    rw [← length_lineStartsFrom front 0, List.countP_eq_length]
    intro start hstart
    have := mem_lineStartsFrom hstart
    simp
    omega
  have hback : (lineStartsFrom back (0 + front.length)).countP (· ≤ front.length) = 0 := by
    rw [List.countP_eq_zero]
    intro start hstart
    have := mem_lineStartsFrom hstart
    simp
    omega
  rw [List.countP_cons_of_pos (by simp), lineStartsFrom_append, List.countP_append, hfront,
    hback, Nat.add_zero]

/-! ## Searches by halving -/

namespace Checked

variable {ε : Type}

/-- In an increasing list the smaller entry comes first. -/
theorem lt_of_getElem_lt {as : List Nat} {i j : Nat} {hi : i < as.length} {hj : j < as.length}
    (h : as.Pairwise (· < ·)) (hlt : as[i] < as[j]) : i < j := by
  rcases Nat.lt_trichotomy i j with hij | rfl | hji
  · exact hij
  · exact absurd hlt (Nat.lt_irrefl _)
  · exact absurd (List.pairwise_iff_getElem.mp h j i hj hi hji) (Nat.lt_asymm hlt)

/-- **Search.**  Nothing is left out that may be the place: a smaller entry stands before
the one looked for, a larger one behind it. -/
theorem search_eq {as : List Nat} {key low high : Nat} (h : as.Pairwise (· < ·))
    (hhigh : high ≤ as.length)
    (hkey : ∀ index, as[index]? = some key → low ≤ index ∧ index < high) :
    ∃ found, (search as key low high : Checked ε (Option Nat)) = .ok found ∧
      ∀ index, found = some index ↔ as[index]? = some key := by
  induction hsize : high - low using Nat.strongRecOn generalizing low high with
  | ind size ih =>
      rw [search]
      split
      next hlt =>
        have hlow : low ≤ low + (high - low) / 2 := Nat.le_add_right _ _
        have hmiddle : low + (high - low) / 2 < high := by omega
        generalize low + (high - low) / 2 = middle at hlow hmiddle
        have hinside : middle < as.length := Nat.lt_of_lt_of_le hmiddle hhigh
        dsimp only
        rw [get_eq (List.getElem?_eq_getElem hinside), ok_bind]
        rcases Nat.lt_trichotomy as[middle] key with hless | hequal | hmore
        · have hbehind (index : Nat) (hindex : as[index]? = some key) : middle < index := by
            obtain ⟨hplace, rfl⟩ := List.getElem?_eq_some_iff.mp hindex
            exact lt_of_getElem_lt h hless
          rw [if_neg (Nat.ne_of_lt hless), if_pos hless]
          exact ih _ (by omega) hhigh
            (fun index hindex => ⟨hbehind index hindex, (hkey index hindex).2⟩) rfl
        · have hnodup : as.Nodup := h.imp Nat.ne_of_lt
          rw [if_pos hequal]
          refine ⟨_, rfl, fun index => ?_⟩
          rw [Option.some.injEq, ← hequal, List.getElem?_eq_some_iff]
          constructor
          · rintro rfl
            exact ⟨hinside, rfl⟩
          · rintro ⟨hplace, heq⟩
            exact (List.Nodup.getElem_inj_iff hnodup).mp heq.symm
        · have hbefore (index : Nat) (hindex : as[index]? = some key) : index < middle := by
            obtain ⟨hplace, rfl⟩ := List.getElem?_eq_some_iff.mp hindex
            exact lt_of_getElem_lt h hmore
          rw [if_neg (Nat.ne_of_gt hmore), if_neg (Nat.lt_asymm hmore)]
          exact ih _ (by omega) (by omega)
            (fun index hindex => ⟨(hkey index hindex).1, hbefore index hindex⟩) rfl
      next hle =>
        refine ⟨none, rfl, fun index => ⟨nofun, fun hindex => ?_⟩⟩
        have := hkey index hindex
        omega

/-- A test that holds at the front of a list holds as often as there are entries before
the first place where it fails. -/
theorem countP_eq_of_getElem {as : List Nat} {test : Nat → Bool} {place : Nat}
    (hplace : place ≤ as.length) (hfront : ∀ i (h : i < as.length), i < place → test as[i])
    (hback : ∀ i (h : i < as.length), place ≤ i → ¬ test as[i]) : as.countP test = place := by
  have htake : (as.take place).countP test = place := by
    have hall : (as.take place).countP test = (as.take place).length := by
      rw [List.countP_eq_length]
      intro a ha
      obtain ⟨i, hi, rfl⟩ := List.mem_take_iff_getElem.mp ha
      exact hfront i (by omega) (by omega)
    rw [hall, List.length_take, Nat.min_eq_left hplace]
  have hdrop : (as.drop place).countP test = 0 := by
    rw [List.countP_eq_zero]
    intro a ha
    obtain ⟨i, hi, rfl⟩ := List.mem_drop_iff_getElem.mp ha
    exact hback _ _ (Nat.le_add_right _ _)
  rw [← List.take_append_drop place as, List.countP_append, htake, hdrop, Nat.add_zero]

/-- **Partition.**  If no entry that passes a test stands behind one that fails it, the
number of those that pass is found by halving. -/
theorem partitionPoint_eq {as : List Nat} {test : Nat → Bool} {low high : Nat}
    (h : as.Pairwise fun a b => test b → test a) (hlow : low ≤ high) (hhigh : high ≤ as.length)
    (hfront : ∀ i (h : i < as.length), i < low → test as[i])
    (hback : ∀ i (h : i < as.length), high ≤ i → ¬ test as[i]) :
    (partitionPoint as test low high : Checked ε Nat) = .ok (as.countP test) := by
  induction hsize : high - low using Nat.strongRecOn generalizing low high with
  | ind size ih =>
      rw [partitionPoint]
      split
      next hlt =>
        have hlow : low ≤ low + (high - low) / 2 := Nat.le_add_right _ _
        have hmiddle : low + (high - low) / 2 < high := by omega
        generalize low + (high - low) / 2 = middle at hlow hmiddle
        have hinside : middle < as.length := Nat.lt_of_lt_of_le hmiddle hhigh
        dsimp only
        rw [get_eq (List.getElem?_eq_getElem hinside), ok_bind]
        split
        next hpass =>
          refine ih _ (by omega) hmiddle hhigh (fun i hi hle => ?_) hback rfl
          rcases Nat.lt_or_eq_of_le (Nat.le_of_lt_succ hle) with hbefore | rfl
          · exact List.pairwise_iff_getElem.mp h i middle hi hinside hbefore hpass
          · exact hpass
        next hfail =>
          refine ih _ (by omega) hlow (Nat.le_of_lt hinside) hfront (fun i hi hle => ?_) rfl
          rcases Nat.lt_or_eq_of_le hle with hbehind | rfl
          · exact fun hpass =>
              hfail (List.pairwise_iff_getElem.mp h middle i hinside hi hbehind hpass)
          · exact hfail
      next hle =>
        obtain rfl : low = high := Nat.le_antisymm hlow (Nat.le_of_not_lt hle)
        rw [countP_eq_of_getElem hhigh hfront hback]
        rfl

end Checked

/-! ## Answers of the index -/

namespace TextIndex

open Checked

variable {t : Text}

theorem charLength_eq (t : Text) : (ofText t).charLength = .ok t.charLength := by
  rw [charLength, ofText_eq, length_charStartsFrom, sub_eq (Nat.le_add_left _ _)]
  rfl

/-- A place is the end of as many characters in both indexings. -/
theorem byteIndexFrom?_eq_some_iff_charIndexFrom? {cs : List Char} {offset index : Nat} :
    byteIndexFrom? cs index 0 = some offset ↔ charIndexFrom? cs offset 0 = some index := by
  rw [byteIndexFrom?_eq_some_iff, charIndexFrom?_eq_some_iff]
  simp only [Nat.zero_add, and_comm]

/-- **Bytes to characters.**  An offset is the start of a character, or it has none. -/
theorem toCharOffset_eq (t : Text) (offset : Nat) :
    (ofText t).toCharOffset offset = ofExcept (t.toCharOffset offset) := by
  obtain ⟨found, hsearch, hfound⟩ :=
    @search_eq CoordinateError (charStartsFrom t.chars 0) offset 0
      (charStartsFrom t.chars 0).length (pairwise_charStartsFrom t.chars 0).1 (Nat.le_refl _)
      (fun index hindex =>
        ⟨Nat.zero_le _, (List.getElem?_eq_some_iff.mp hindex).1⟩)
  obtain rfl : found = charIndexFrom? t.chars offset 0 := by
    ext index
    rw [hfound, getElem?_charStartsFrom,
      byteIndexFrom?_eq_some_iff_charIndexFrom?]
  rw [toCharOffset, ofText_eq]
  dsimp only
  rw [hsearch, ok_bind, Text.toCharOffset]
  cases hindex : charIndexFrom? t.chars offset 0 with
  | none => split <;> rfl
  | some index =>
      obtain ⟨front, back, htext, rfl, -⟩ := charIndexFrom?_eq_some_iff.mp hindex
      rw [if_neg]
      · rfl
      · rw [Text.byteLength, htext, utf8Size_append]
        omega

/-- **Characters to bytes.**  The start of a character is read off the index. -/
theorem toByteOffset_eq (t : Text) (offset : Nat) :
    (ofText t).toByteOffset offset = ofExcept (t.toByteOffset offset) := by
  rw [toByteOffset, charLength_eq, ofText_eq, getElem?_charStartsFrom, Text.toByteOffset]
  cases byteIndexFrom? t.chars offset 0 <;> rfl

theorem toCharRange_eq (t : Text) (r : ByteRange) :
    (ofText t).toCharRange r = ofExcept (t.toCharRange r) := by
  simp only [← Checked.toCharRange_eq, toCharRange, Checked.toCharRange, toCharOffset_eq]
  rw [ofText_eq]
  rfl

theorem toByteRange_eq (t : Text) (r : CharRange) :
    (ofText t).toByteRange r = ofExcept (t.toByteRange r) := by
  simp only [← Checked.toByteRange_eq, toByteRange, Checked.toByteRange, toByteOffset_eq,
    charLength_eq, ok_bind]
  rfl

/-- **The text of a span of bytes.** -/
theorem sliceBytes_eq (t : Text) (r : ByteRange) :
    (ofText t).sliceBytes r = ofExcept (t.sliceBytes r) := by
  rw [← Checked.sliceBytes_eq, sliceBytes, Checked.sliceBytes, toCharRange_eq,
    Checked.toCharRange_eq, ofText_eq]

/-- **The text of a span of characters.**  Its ends in bytes lie in the text, so their sum
fits where the size of the text does. -/
theorem sliceChars_eq (r : CharRange) (hsize : t.byteLength ≤ maxOffset) :
    (ofText t).sliceChars r = ofExcept (t.sliceChars r) := by
  rw [sliceChars, toByteRange_eq, Text.sliceChars]
  cases hbytes : t.toByteRange r with
  | error e => rfl
  | ok bytes =>
      obtain ⟨front, mid, back, htext, rfl, rfl, -⟩ := Text.toByteRange_eq_ok_iff.mp hbytes
      have hfits : utf8Size front + utf8Size mid ≤ maxOffset := by
        refine Nat.le_trans ?_ hsize
        rw [Text.byteLength, htext, utf8Size_append, utf8Size_append]
        exact Nat.le_add_right _ _
      rw [ofExcept_ok, ok_bind, add_eq hfits, ok_bind, ofText_eq, slice_of_append htext,
        ← Text.slice_of_chars_eq htext]
      rfl

/-- **Positions.**  The line of an offset is the last one that has begun there. -/
theorem lineAndCharacter?_eq (offset : Nat) (hsize : t.byteLength < maxOffset) :
    (ofText t).lineAndCharacter? offset = .ok (t.lineAndCharacter? offset) := by
  have hfits : t.charLength < maxOffset :=
    Nat.lt_of_le_of_lt (length_le_utf8Size t.chars) hsize
  rw [lineAndCharacter?, charLength_eq, ok_bind]
  by_cases hbeyond : t.charLength < offset
  · rw [if_pos hbeyond, Text.lineAndCharacter?, if_pos hbeyond]
    rfl
  · obtain ⟨front, back, htext, rfl⟩ :
        ∃ front back, t.chars = front ++ back ∧ offset = front.length :=
      ⟨t.chars.take offset, t.chars.drop offset, (List.take_append_drop _ _).symm,
        (List.length_take_of_le (Nat.le_of_not_lt hbeyond)).symm⟩
    have hbegun : (partitionPoint (0 :: lineStartsFrom t.chars 0) (· ≤ front.length) 0
        (0 :: lineStartsFrom t.chars 0).length : Checked CoordinateError Nat) =
          .ok (lineBreaks front + 1) := by
      rw [← countP_lineStarts front back, ← htext]
      refine partitionPoint_eq ?_ (Nat.zero_le _) (Nat.le_refl _) (fun i _ hi => ?_)
        (fun i hi hle => ?_)
      · refine (pairwise_lineStartsFrom t.chars 0).imp fun hlt hle => ?_
        simp at hle ⊢
        omega
      · exact absurd hi (Nat.not_lt_zero i)
      · exact absurd hi (Nat.not_lt_of_le hle)
    have hstart := getElem?_lineStarts front back
    have hline := length_lastLine_le front
    have hbreaks : lineBreaks front ≤ front.length := List.count_le_length
    rw [← htext] at hstart
    rw [if_neg hbeyond, Text.lineAndCharacter?_of_append htext, ofText_eq]
    dsimp only
    rw [hbegun, ok_bind, sub_eq (Nat.le_add_left _ _), ok_bind, Nat.add_sub_cancel,
      get_eq hstart, ok_bind, sub_eq (Nat.sub_le _ _), ok_bind, Nat.sub_sub_self hline,
      add_eq (by omega), ok_bind, add_eq (by omega), ok_bind, LinePosition.behind,
      Nat.add_comm 1, Nat.add_comm 1]
    rfl

/-- What is behind some line breaks begins a line. -/
theorem exists_front_of_dropLines {n : Nat} {cs rest : List Char} (h : dropLines n cs = some rest) :
    ∃ front, cs = front ++ rest ∧ lineBreaks front = n ∧ lastLine front = [] := by
  induction n generalizing cs with
  | zero => exact ⟨[], Option.some.inj h, rfl, rfl⟩
  | succ n ih =>
      by_cases hmem : '\n' ∈ cs
      · obtain ⟨line, below, rfl, hline⟩ := List.eq_append_cons_of_mem hmem
        rw [dropLines_append_break hline] at h
        obtain ⟨front, rfl, rfl, hlast⟩ := ih h
        have hnone : lineBreaks line = 0 := List.count_eq_zero.mpr hline
        refine ⟨line ++ '\n' :: front, by simp, ?_, ?_⟩
        · rw [lineBreaks_append, hnone, Nat.zero_add, lineBreaks, List.count_cons_self,
            lineBreaks]
        · rw [lastLine_append_break, hlast]
      · rw [dropLines_eq_none n hmem] at h
        cases h

/-- The line behind some lines ends at the next line break. -/
theorem lineStop_eq {front rest : List Char} (h : t.chars = front ++ rest) :
    (ofText t).lineStop (lineBreaks front + 1) =
      .ok (front.length + (rest.takeWhile (· ≠ '\n')).length) := by
  rw [lineStop, charLength_eq, ofText_eq]
  by_cases hmem : '\n' ∈ rest
  · obtain ⟨line, below, rfl, hline⟩ := List.eq_append_cons_of_mem hmem
    have hnone : lineBreaks line = 0 := List.count_eq_zero.mpr hline
    have hbreaks : lineBreaks (front ++ line ++ ['\n']) = lineBreaks front + 1 := by
      rw [lineBreaks_append, lineBreaks_append, hnone]
      rfl
    have hnext := getElem?_lineStarts (front ++ line ++ ['\n']) below
    have htext : front ++ line ++ ['\n'] ++ below = t.chars := by simp [h]
    rw [hbreaks, lastLine_append_break, htext] at hnext
    have hlength : (front ++ line ++ ['\n']).length - (lastLine []).length =
        front.length + line.length + 1 := by
      simp [lastLine, Nat.add_assoc]
    rw [hlength] at hnext
    rw [hnext, List.takeWhile_append_of_pos (forall_ne_lineBreak hline)]
    dsimp only
    rw [sub_eq (Nat.le_add_left _ _)]
    simp
  · have hnone : (0 :: lineStartsFrom t.chars 0)[lineBreaks front + 1]? = none := by
      have hrest : lineBreaks rest = 0 := List.count_eq_zero.mpr hmem
      rw [List.getElem?_eq_none_iff, List.length_cons, length_lineStartsFrom, h,
        lineBreaks_append, hrest, Nat.add_zero]
    rw [hnone, List.takeWhile_eq_self_iff.mpr (forall_ne_lineBreak hmem), Text.charLength, h,
      List.length_append]

/-- **Lines.**  A line ends before the next one begins, or with the text. -/
theorem line?_eq (n : Nat) (hsize : t.byteLength ≤ maxOffset) :
    (ofText t).line? n = .ok (t.line? n) := by
  cases n with
  | zero => rfl
  | succ n =>
      rw [line?, Text.line?]
      cases hdrop : dropLines n t.chars with
      | none =>
          have hfew : ¬ n < 1 + lineBreaks t.chars := by
            intro hmany
            obtain ⟨s, hs⟩ : ∃ s, t.line? (n + 1) = some s :=
              Text.exists_line?_iff.mpr ⟨Nat.le_add_left 1 n, by omega⟩
            rw [Text.line?, hdrop] at hs
            cases hs
          have hnone : (0 :: lineStartsFrom t.chars 0)[n]? = none := by
            rw [List.getElem?_eq_none_iff, List.length_cons, length_lineStartsFrom]
            omega
          rw [ofText_eq, hnone]
          rfl
      | some rest =>
          obtain ⟨front, htext, rfl, hlast⟩ := exists_front_of_dropLines hdrop
          have hstart : (ofText t).lineStarts[lineBreaks front]? = some front.length := by
            rw [ofText_eq, htext, getElem?_lineStarts, hlast]
            rfl
          have hstop := lineStop_eq htext
          have hsplit : t.chars = front ++ rest.takeWhile (· ≠ '\n') ++
              rest.dropWhile (· ≠ '\n') := by
            rw [List.append_assoc, List.takeWhile_append_dropWhile, htext]
          have hfits : front.length + (rest.takeWhile (· ≠ '\n')).length ≤ maxOffset := by
            have hlength := length_le_utf8Size t.chars
            rw [hsplit, List.length_append, List.length_append, ← hsplit] at hlength
            exact Nat.le_trans (Nat.le_trans (Nat.le_add_right _ _) hlength) hsize
          have hslice := Text.sliceChars_of_append hsplit hfits
          rw [hstart]
          dsimp only
          rw [hstop, ok_bind, sub_eq (Nat.le_add_right _ _), ok_bind, Nat.add_sub_cancel_left,
            sliceChars_eq _ hsize, attempt_ofExcept, ok_bind, hslice]
          dsimp only
          rw [String.toList_ofList]
          rfl

end TextIndex

end DeclLint
