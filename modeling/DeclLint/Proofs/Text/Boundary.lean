import DeclLint.Proofs.Text.Span
import Mathlib.Order.Hom.Set
import Mathlib.Order.Interval.Set.Defs

/-!
# Two indexings of one text

An offset in bytes belongs to an offset in characters exactly if a character begins
there, or the text ends.  Between these boundaries and the offsets in characters up to
the length of the text the two conversions are one order isomorphism and its inverse.  A
span is converted by its two ends, so nothing is lost either: what it is converted to is
converted back to it, and both spans have the same text.

An offset that is not converted is told apart by where it lies, inside of a character or
past the end; a span that is not converted by its first end at fault.

* `Text.IsBoundary` — the boundaries, in the sense of the library's UTF-8 positions;
* `Text.exists_indexing` — offsets;
* `Text.SameSpan`, `Text.toCharRange_eq_error_iff`, `Text.toByteRange_eq_error_iff` —
  spans that are converted, and the faults of others;
* `Text.indexings_agree` — all of it.
-/

namespace DeclLint

/-- A computation in two steps fails in the first step or in the second. -/
theorem bind_eq_error_iff {ε α β : Type} {x : Except ε α} {f : α → Except ε β} {e : ε} :
    x >>= f = .error e ↔ x = .error e ∨ ∃ a, x = .ok a ∧ f a = .error e := by
  cases x with
  | error e' => simp [bind, Except.bind]
  | ok a => simp [bind, Except.bind]

/-- A computation succeeds exactly if it fails with no error. -/
theorem exists_ok_iff {ε α : Type} {x : Except ε α} :
    (∃ a, x = .ok a) ↔ ∀ e, x ≠ .error e := by
  cases x <;> simp

namespace Text

variable {t : Text} {offset index : Nat} {e : CoordinateError}

/-- An offset in bytes is a character boundary of the text in UTF-8, its end included. -/
def IsBoundary (t : Text) (offset : Nat) : Prop :=
  String.Pos.Raw.IsValid t.contents ⟨offset⟩

/-- A boundary is the size of some leading characters. -/
theorem isBoundary_iff :
    t.IsBoundary offset ↔ ∃ front back, t.chars = front ++ back ∧ offset = utf8Size front := by
  have hsize (s : String) : s.rawEndPos = ⟨utf8Size s.toList⟩ := by
    rw [← utf8ByteSize_eq_utf8Size]
    rfl
  rw [IsBoundary, String.Pos.Raw.isValid_iff_exists_append]
  constructor
  · rintro ⟨front, back, hcontents, hoffset⟩
    refine ⟨front.toList, back.toList, ?_, ?_⟩
    · rw [← String.toList_append, ← hcontents, contents, String.toList_ofList]
    · rw [hsize] at hoffset
      exact congrArg String.Pos.Raw.byteIdx hoffset
  · rintro ⟨front, back, hchars, rfl⟩
    refine ⟨String.ofList front, String.ofList back, ?_, ?_⟩
    · rw [contents, hchars, String.ofList_append]
    · rw [hsize, String.toList_ofList]

/-- What is wrong with an offset in bytes that is no boundary. -/
def byteFault (t : Text) (offset : Nat) : CoordinateError :=
  if t.byteLength < offset then .byteOffsetOutOfBounds offset t.byteLength
  else .notCharBoundary offset

/-- What is wrong with an offset in characters past the end. -/
def charFault (t : Text) (index : Nat) : CoordinateError :=
  .charOffsetOutOfBounds index t.charLength

/-- The conversions of offsets are inverse to each other. -/
theorem toCharOffset_eq_ok_iff_toByteOffset :
    t.toCharOffset offset = .ok index ↔ t.toByteOffset index = .ok offset := by
  rw [toCharOffset_eq_ok_iff, toByteOffset_eq_ok_iff]
  constructor
  · rintro ⟨front, back, hchars, hoffset, hindex⟩
    exact ⟨front, back, hchars, hindex, hoffset⟩
  · rintro ⟨front, back, hchars, hindex, hoffset⟩
    exact ⟨front, back, hchars, hoffset, hindex⟩

/-- An offset is converted just where a character begins or the text ends. -/
theorem exists_toCharOffset_iff :
    (∃ index, t.toCharOffset offset = .ok index) ↔ t.IsBoundary offset := by
  rw [isBoundary_iff]
  constructor
  · rintro ⟨index, h⟩
    obtain ⟨front, back, hchars, hoffset, -⟩ := toCharOffset_eq_ok_iff.mp h
    exact ⟨front, back, hchars, hoffset⟩
  · rintro ⟨front, back, hchars, hoffset⟩
    exact ⟨front.length, toCharOffset_eq_ok_iff.mpr ⟨front, back, hchars, hoffset, rfl⟩⟩

/-- An index is converted just if it is not behind the end of the text. -/
theorem exists_toByteOffset_iff :
    (∃ offset, t.toByteOffset index = .ok offset) ↔ index ≤ t.charLength := by
  constructor
  · rintro ⟨offset, h⟩
    obtain ⟨front, back, hchars, rfl, -⟩ := toByteOffset_eq_ok_iff.mp h
    simp [charLength, hchars]
  · intro hindex
    have hlength : (t.chars.take index).length = index := List.length_take_of_le hindex
    exact ⟨_, toByteOffset_eq_ok_iff.mpr ⟨t.chars.take index, t.chars.drop index,
      (List.take_append_drop index t.chars).symm, hlength.symm, rfl⟩⟩

/-- Later boundaries have later characters. -/
theorem toCharOffset_lt {offset' index' : Nat} (h : t.toCharOffset offset = .ok index)
    (h' : t.toCharOffset offset' = .ok index') (hlt : offset < offset') : index < index' := by
  obtain ⟨front, back, hchars, rfl, rfl⟩ := toCharOffset_eq_ok_iff.mp h
  obtain ⟨front', back', hchars', rfl, rfl⟩ := toCharOffset_eq_ok_iff.mp h'
  exact length_lt_of_utf8Size_lt ⟨back, hchars.symm⟩ ⟨back', hchars'.symm⟩ hlt

/-- An offset is refused just where none is converted, with the fault that it has. -/
theorem toCharOffset_eq_error_iff :
    t.toCharOffset offset = .error e ↔ ¬ t.IsBoundary offset ∧ e = t.byteFault offset := by
  rw [← exists_toCharOffset_iff, toCharOffset, byteFault]
  cases charIndexFrom? t.chars offset 0 with
  | some index => simp
  | none =>
      by_cases hbeyond : t.byteLength < offset
      · simp [hbeyond, eq_comm]
      · simp [hbeyond, eq_comm]

theorem toByteOffset_eq_error_iff :
    t.toByteOffset index = .error e ↔ t.charLength < index ∧ e = t.charFault index := by
  rw [← Nat.not_le, ← exists_toByteOffset_iff, toByteOffset, charFault]
  cases byteIndexFrom? t.chars index 0 with
  | some offset => simp
  | none => simp [eq_comm]

/-- **Offsets.**  The conversions are an order isomorphism between the boundaries and
the offsets in characters, and its inverse. -/
theorem exists_indexing (t : Text) :
    ∃ indexing : {offset // t.IsBoundary offset} ≃o Set.Iic t.charLength,
      ∀ boundary : {offset // t.IsBoundary offset},
        t.toCharOffset boundary = .ok (indexing boundary) ∧
          t.toByteOffset (indexing boundary) = .ok boundary := by
  choose index hindex using fun boundary : {offset // t.IsBoundary offset} =>
    exists_toCharOffset_iff.mpr boundary.2
  have hinside (boundary : {offset // t.IsBoundary offset}) : index boundary ≤ t.charLength :=
    exists_toByteOffset_iff.mp ⟨_, toCharOffset_eq_ok_iff_toByteOffset.mp (hindex boundary)⟩
  let toIndex (boundary : {offset // t.IsBoundary offset}) : Set.Iic t.charLength :=
    ⟨index boundary, hinside boundary⟩
  have hmono : StrictMono toIndex := fun first second hlt =>
    toCharOffset_lt (hindex first) (hindex second) hlt
  have hsurjective : Function.Surjective toIndex := by
    rintro ⟨found, hfound⟩
    obtain ⟨offset, hoffset⟩ := exists_toByteOffset_iff.mpr hfound
    have hconverted := toCharOffset_eq_ok_iff_toByteOffset.mpr hoffset
    have hboundary : t.IsBoundary offset := exists_toCharOffset_iff.mp ⟨found, hconverted⟩
    refine ⟨⟨offset, hboundary⟩, Subtype.ext ?_⟩
    exact Except.ok.inj ((hindex ⟨offset, hboundary⟩).symm.trans hconverted)
  refine ⟨hmono.orderIsoOfSurjective toIndex hsurjective, fun boundary => ?_⟩
  exact ⟨hindex boundary, toCharOffset_eq_ok_iff_toByteOffset.mp (hindex boundary)⟩

/-- A span of bytes and a span of characters are one span of the text: each is converted
to the other, and both have the same text, which takes up the bytes of the one and has
as many characters as the other says. -/
structure SameSpan (t : Text) (bytes : ByteRange) (chars : CharRange) : Prop where
  toCharRange_eq : t.toCharRange bytes = .ok chars
  toByteRange_eq : t.toByteRange chars = .ok bytes
  exists_slice : ∃ s : String, t.sliceBytes bytes = .ok s ∧ t.sliceChars chars = .ok s ∧
    Occupies t.chars bytes s.toList ∧ s.length = chars.length

/-- The bytes and the number of characters of the same part of a text are one span. -/
theorem sameSpan_of_append {front mid back : List Char} (h : t.chars = front ++ mid ++ back)
    (hfits : utf8Size front + utf8Size mid ≤ maxOffset) :
    t.SameSpan ⟨utf8Size front, utf8Size mid⟩ ⟨front.length, mid.length⟩ := by
  have hfewer : front.length + mid.length ≤ maxOffset :=
    Nat.le_trans (Nat.add_le_add (length_le_utf8Size front) (length_le_utf8Size mid)) hfits
  have hchars := toCharRange_eq_ok_iff.mpr ⟨front, mid, back, h, rfl, rfl, hfits⟩
  have hbytes := toByteRange_eq_ok_iff.mpr ⟨front, mid, back, h, rfl, rfl, hfewer⟩
  have hoccupies : Occupies t.chars ⟨utf8Size front, utf8Size mid⟩ (String.ofList mid).toList :=
    ⟨front, back, by rwa [String.toList_ofList], by rw [String.toList_ofList]⟩
  refine ⟨hchars, hbytes, String.ofList mid, sliceBytes_eq_ok_iff.mpr ⟨hoccupies, hfits⟩,
    sliceChars_of_append h hfewer, hoccupies, String.length_ofList⟩

theorem SameSpan.of_toCharRange {bytes : ByteRange} {chars : CharRange}
    (h : t.toCharRange bytes = .ok chars) : t.SameSpan bytes chars := by
  obtain ⟨front, mid, back, hchars, rfl, rfl, hfits⟩ := toCharRange_eq_ok_iff.mp h
  exact sameSpan_of_append hchars hfits

/-- A span of characters is not lost as long as the bytes of the text can be counted. -/
theorem SameSpan.of_toByteRange {bytes : ByteRange} {chars : CharRange}
    (h : t.toByteRange chars = .ok bytes) (hfits : t.byteLength ≤ maxOffset) :
    t.SameSpan bytes chars := by
  obtain ⟨front, mid, back, hchars, rfl, rfl, -⟩ := toByteRange_eq_ok_iff.mp h
  refine sameSpan_of_append hchars (Nat.le_trans ?_ hfits)
  simp [byteLength, hchars]

/-- The error of a span that is not converted: that of an end that fits no word, or else
that of the start, or else that of the end. -/
inductive FirstFault (overflow : CoordinateError) (converted : Nat → Prop)
    (fault : Nat → CoordinateError) (location stop : Nat) : CoordinateError → Prop
  | overflow (hoverflow : maxOffset < stop) :
      FirstFault overflow converted fault location stop overflow
  | start (hfits : stop ≤ maxOffset) (hstart : ¬ converted location) :
      FirstFault overflow converted fault location stop (fault location)
  | stop (hfits : stop ≤ maxOffset) (hstart : converted location) (hstop : ¬ converted stop) :
      FirstFault overflow converted fault location stop (fault stop)

section Ends

variable {overflow : CoordinateError} {converted : Nat → Prop} {fault : Nat → CoordinateError}
  {location stop : Nat}

/-- A span has no fault exactly if its end fits a word and both ends are converted. -/
theorem forall_not_firstFault_iff :
    (∀ e, ¬ FirstFault overflow converted fault location stop e) ↔
      stop ≤ maxOffset ∧ converted location ∧ converted stop := by
  constructor
  · intro h
    have hfits : stop ≤ maxOffset := Nat.le_of_not_lt fun hlt => h _ (.overflow hlt)
    have hstart : converted location := Classical.not_not.mp fun hnot => h _ (.start hfits hnot)
    exact ⟨hfits, hstart, Classical.not_not.mp fun hnot => h _ (.stop hfits hstart hnot)⟩
  · rintro ⟨hfits, hstart, hstop⟩ e hfault
    cases hfault with
    | overflow hoverflow => exact absurd hfits (Nat.not_le.mpr hoverflow)
    | start _ hnot => exact hnot hstart
    | stop _ _ hnot => exact hnot hstop

/-- What refuses an end that fits no word, and else converts the start and then the end,
fails with the first fault. -/
theorem eq_error_iff_firstFault {α : Type} (convert : Nat → Except CoordinateError Nat)
    (span : Nat → Nat → α) {x : Except CoordinateError α}
    (hconvert : ∀ offset e, convert offset = .error e ↔ ¬ converted offset ∧ e = fault offset)
    (hoverflow : maxOffset < stop → x = .error overflow)
    (hfits : stop ≤ maxOffset → x = convert location >>= fun first =>
      convert stop >>= fun last => pure (span first last)) :
    x = .error e ↔ FirstFault overflow converted fault location stop e := by
  rcases Nat.lt_or_ge maxOffset stop with hlt | hle
  · rw [hoverflow hlt]
    constructor
    · intro he
      obtain rfl := Except.error.inj he
      exact .overflow hlt
    · intro hfault
      cases hfault with
      | overflow => rfl
      | start hle => exact absurd hle (Nat.not_le.mpr hlt)
      | stop hle => exact absurd hle (Nat.not_le.mpr hlt)
  · have hstops (first : Nat) :
        (convert stop >>= fun last => pure (span first last)) = .error e ↔
          ¬ converted stop ∧ e = fault stop := by
      rw [bind_eq_error_iff, hconvert]
      simp [pure, Except.pure]
    have hstarts : (∃ first, convert location = .ok first) ↔ converted location := by
      cases h : convert location with
      | error e' => simpa using ((hconvert location e').mp h).1
      | ok first => simpa [h] using hconvert location (fault location)
    rw [hfits hle, bind_eq_error_iff, hconvert]
    simp only [hstops, exists_and_right, hstarts]
    constructor
    · rintro (⟨hstart, rfl⟩ | ⟨hstart, hstop, rfl⟩)
      · exact .start hle hstart
      · exact .stop hle hstart hstop
    · intro hfault
      cases hfault with
      | overflow hlt => exact absurd hle (Nat.not_le.mpr hlt)
      | start _ hstart => exact .inl ⟨hstart, rfl⟩
      | stop _ hstart hstop => exact .inr ⟨hstart, hstop, rfl⟩

end Ends

/-- The error of a span of bytes that is not converted. -/
def ByteRangeFault (t : Text) (r : ByteRange) : CoordinateError → Prop :=
  FirstFault (.byteOffsetOutOfBounds maxOffset t.byteLength) t.IsBoundary t.byteFault
    r.location r.stop

/-- The error of a span of characters that is not converted. -/
def CharRangeFault (t : Text) (r : CharRange) : CoordinateError → Prop :=
  FirstFault (t.charFault maxOffset) (· ≤ t.charLength) t.charFault r.location r.stop

theorem toCharRange_eq_error_iff {r : ByteRange} :
    t.toCharRange r = .error e ↔ t.ByteRangeFault r e := by
  refine eq_error_iff_firstFault t.toCharOffset (fun first last => ⟨first, last - first⟩)
    (fun _ _ => toCharOffset_eq_error_iff) ?_ ?_
  · exact toCharRange_of_overflow
  · exact toCharRange_of_fits

theorem toByteRange_eq_error_iff {r : CharRange} :
    t.toByteRange r = .error e ↔ t.CharRangeFault r e := by
  refine eq_error_iff_firstFault t.toByteOffset (fun first last => ⟨first, last - first⟩)
    (fun _ _ => by rw [toByteOffset_eq_error_iff, Nat.not_le]) ?_ ?_
  · exact toByteRange_of_overflow
  · exact toByteRange_of_fits

/-- Spans of bytes are converted if both ends are boundaries. -/
theorem exists_toCharRange_iff {r : ByteRange} :
    (∃ chars, t.toCharRange r = .ok chars) ↔
      r.stop ≤ maxOffset ∧ t.IsBoundary r.location ∧ t.IsBoundary r.stop := by
  simp only [exists_ok_iff, ne_eq, toCharRange_eq_error_iff]
  exact forall_not_firstFault_iff

theorem sliceBytes_eq_error_iff {r : ByteRange} :
    t.sliceBytes r = .error e ↔ t.ByteRangeFault r e := by
  rw [← toCharRange_eq_error_iff, sliceBytes, bind_eq_error_iff]
  simp [pure, Except.pure]

theorem sliceChars_eq_error_iff {r : CharRange} :
    t.sliceChars r = .error e ↔ t.CharRangeFault r e := by
  rw [← toByteRange_eq_error_iff, sliceChars, bind_eq_error_iff]
  simp [pure, Except.pure]

/-- **Two indexings of one text.**  Offsets are converted by an order isomorphism between
the boundaries and the offsets in characters.  A span is converted exactly if its end fits
a word and both ends are converted; then nothing is lost, and both indexings give the same
text.  Anything else fails with the first fault there is. -/
theorem indexings_agree (t : Text) :
    (∃ indexing : {offset // t.IsBoundary offset} ≃o Set.Iic t.charLength,
      ∀ boundary : {offset // t.IsBoundary offset},
        t.toCharOffset boundary = .ok (indexing boundary) ∧
          t.toByteOffset (indexing boundary) = .ok boundary) ∧
    (∀ offset e, t.toCharOffset offset = .error e ↔
      ¬ t.IsBoundary offset ∧ e = t.byteFault offset) ∧
    (∀ index e, t.toByteOffset index = .error e ↔
      t.charLength < index ∧ e = t.charFault index) ∧
    (∀ r : ByteRange,
      ((∃ chars, t.toCharRange r = .ok chars) ↔
        r.stop ≤ maxOffset ∧ t.IsBoundary r.location ∧ t.IsBoundary r.stop) ∧
      (∀ chars, t.toCharRange r = .ok chars → t.SameSpan r chars) ∧
      ∀ e, (t.toCharRange r = .error e ↔ t.ByteRangeFault r e) ∧
        (t.sliceBytes r = .error e ↔ t.ByteRangeFault r e)) ∧
    ∀ r : CharRange,
      ((∃ bytes, t.toByteRange r = .ok bytes) ↔
        r.stop ≤ maxOffset ∧ r.stop ≤ t.charLength) ∧
      (t.byteLength ≤ maxOffset →
        ∀ bytes, t.toByteRange r = .ok bytes → t.SameSpan bytes r) ∧
      ∀ e, (t.toByteRange r = .error e ↔ t.CharRangeFault r e) ∧
        (t.sliceChars r = .error e ↔ t.CharRangeFault r e) := by
  refine ⟨t.exists_indexing, fun _ _ => toCharOffset_eq_error_iff,
    fun _ _ => toByteOffset_eq_error_iff, fun r => ?_, fun r => ?_⟩
  · exact ⟨exists_toCharRange_iff, fun _ h => .of_toCharRange h,
      fun _ => ⟨toCharRange_eq_error_iff, sliceBytes_eq_error_iff⟩⟩
  · exact ⟨exists_toByteRange_iff, fun hfits _ h => .of_toByteRange h hfits,
      fun _ => ⟨toByteRange_eq_error_iff, sliceChars_eq_error_iff⟩⟩

/-- A span behind characters of two and four bytes, and the span of the second of them. -/
theorem indexings_agree_multibyte :
    (ofString "é🦀let").toCharRange ⟨6, 3⟩ = .ok ⟨2, 3⟩ ∧
      (ofString "é🦀let").SameSpan ⟨6, 3⟩ ⟨2, 3⟩ ∧
      (ofString "é🦀let").byteLength ≤ maxOffset ∧
      (ofString "é🦀let").toByteRange ⟨1, 1⟩ = .ok ⟨2, 4⟩ ∧
      (ofString "é🦀let").SameSpan ⟨2, 4⟩ ⟨1, 1⟩ := by
  have hchars : (ofString "é🦀let").toCharRange ⟨6, 3⟩ = .ok ⟨2, 3⟩ := by rfl
  have hbytes : (ofString "é🦀let").toByteRange ⟨1, 1⟩ = .ok ⟨2, 4⟩ := by rfl
  have hfits : (ofString "é🦀let").byteLength ≤ maxOffset := by decide
  obtain ⟨-, -, -, hofBytes, hofChars⟩ := indexings_agree (ofString "é🦀let")
  exact ⟨hchars, (hofBytes ⟨6, 3⟩).2.1 _ hchars, hfits, hbytes,
    (hofChars ⟨1, 1⟩).2.1 hfits _ hbytes⟩

end Text

end DeclLint
