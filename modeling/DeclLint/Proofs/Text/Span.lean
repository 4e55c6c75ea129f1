import DeclLint.Text.Offset

/-!
# Spans that map onto a text

A span of bytes and a span of characters belong together when both are taken up
by the same characters of a text: `front` comes before them, `mid` is what they
cover, and `back` follows.  Every conversion succeeds exactly on such spans, so
a proof about coordinates can speak of the three parts and never of offsets.

* `Text.toCharRange_eq_ok_iff`, `Text.toByteRange_eq_ok_iff` — the conversions;
* `Text.exists_toByteRange_iff` — a span of characters inside the text has one in bytes;
* `Text.sliceBytes_eq_ok_iff` — the text of a span of bytes.
-/

namespace DeclLint

/-- A computation in two steps succeeds only if the first step does. -/
theorem exists_of_bind_eq_ok {ε α β : Type} {x : Except ε α} {f : α → Except ε β} {b : β}
    (h : x >>= f = .ok b) : ∃ a, x = .ok a ∧ f a = .ok b := by
  cases x with
  | error e => simp [bind, Except.bind] at h
  | ok a => exact ⟨a, rfl, h⟩

/-- Characters take up at least one byte each. -/
theorem length_le_utf8Size (cs : List Char) : cs.length ≤ utf8Size cs := by
  induction cs with
  | nil => simp
  | cons c cs ih =>
      have hc : 0 < c.utf8Size := c.utf8Size_pos
      simp only [List.length_cons, utf8Size_cons]
      omega

/-- Only the empty run takes up no bytes. -/
theorem utf8Size_eq_zero_iff {cs : List Char} : utf8Size cs = 0 ↔ cs = [] := by
  constructor
  · intro h
    have hlen : cs.length ≤ 0 := h ▸ length_le_utf8Size cs
    exact List.length_eq_zero_iff.mp (by omega)
  · rintro rfl
    rfl

/-- A string of some characters has their size. -/
theorem utf8ByteSize_ofList (cs : List Char) :
    (String.ofList cs).utf8ByteSize = utf8Size cs := by
  induction cs with
  | nil => rfl
  | cons c cs ih =>
      have hcons : String.ofList (c :: cs) = String.singleton c ++ String.ofList cs := by
        rw [← String.ofList_toList (s := String.singleton c), ← String.ofList_append]
        simp
      rw [hcons, String.utf8ByteSize_append, ih]
      simp

theorem utf8ByteSize_eq_utf8Size (s : String) : s.utf8ByteSize = utf8Size s.toList := by
  rw [← utf8ByteSize_ofList, String.ofList_toList]

/-- Of two leading parts of a text, the one with fewer bytes leads the other. -/
theorem prefix_of_utf8Size_le {xs ys cs : List Char} (hx : xs <+: cs) (hy : ys <+: cs)
    (h : utf8Size xs ≤ utf8Size ys) : xs <+: ys := by
  rcases Nat.le_total xs.length ys.length with hlen | hlen
  · exact List.prefix_of_prefix_length_le hx hy hlen
  · obtain ⟨more, rfl⟩ := List.prefix_of_prefix_length_le hy hx hlen
    have hmore : utf8Size more = 0 := by
      rw [utf8Size_append] at h
      omega
    simp [utf8Size_eq_zero_iff.mp hmore]

/-- Of two leading parts of a text, the one with fewer bytes has fewer characters. -/
theorem length_lt_of_utf8Size_lt {xs ys cs : List Char} (hx : xs <+: cs) (hy : ys <+: cs)
    (h : utf8Size xs < utf8Size ys) : xs.length < ys.length := by
  obtain ⟨between, rfl⟩ := prefix_of_utf8Size_le hx hy (Nat.le_of_lt h)
  have hne : between ≠ [] := by
    rintro rfl
    simp at h
  rw [List.length_append]
  exact Nat.lt_add_of_pos_right (List.length_pos_iff.mpr hne)

/-- Two leading parts of a text with equally many bytes are one. -/
theorem append_inj_of_utf8Size_eq {xs ys us vs : List Char} (h : xs ++ us = ys ++ vs)
    (hsize : utf8Size xs = utf8Size ys) : xs = ys ∧ us = vs := by
  have hx : xs <+: xs ++ us := List.prefix_append xs us
  have hy : ys <+: xs ++ us := h ▸ List.prefix_append ys vs
  have hxy : xs <+: ys := prefix_of_utf8Size_le hx hy (Nat.le_of_eq hsize)
  have hyx : ys <+: xs := prefix_of_utf8Size_le hy hx (Nat.le_of_eq hsize.symm)
  have hlen : xs.length = ys.length := Nat.le_antisymm hxy.length_le hyx.length_le
  exact List.append_inj h hlen

/-- A span of bytes of a text is taken up by the characters `mid`. -/
def Occupies (source : List Char) (r : ByteRange) (mid : List Char) : Prop :=
  ∃ front back, source = front ++ mid ++ back ∧ r = ⟨utf8Size front, utf8Size mid⟩

/-- A span is taken up by one run of characters only. -/
theorem Occupies.unique {source xs ys : List Char} {r : ByteRange}
    (hx : Occupies source r xs) (hy : Occupies source r ys) : xs = ys := by
  obtain ⟨front, back, hsource, rfl⟩ := hx
  obtain ⟨front', back', hsource', hr⟩ := hy
  obtain ⟨hfront, hmid⟩ : utf8Size front = utf8Size front' ∧ utf8Size xs = utf8Size ys := by
    simpa using hr
  rw [List.append_assoc] at hsource
  rw [hsource, List.append_assoc] at hsource'
  obtain ⟨-, hrest⟩ := append_inj_of_utf8Size_eq hsource' hfront
  exact (append_inj_of_utf8Size_eq hrest hmid).1

/-- A span of a text ends inside it. -/
theorem Occupies.stop_le {source mid : List Char} {r : ByteRange} (h : Occupies source r mid) :
    r.stop ≤ utf8Size source := by
  obtain ⟨front, back, rfl, rfl⟩ := h
  simp only [ByteRange.stop, utf8Size_append]
  omega

namespace Text

/-- A byte offset maps onto the text exactly at the end of a leading part. -/
theorem toCharOffset_eq_ok_iff {t : Text} {offset found : Nat} :
    t.toCharOffset offset = .ok found ↔
      ∃ front back, t.chars = front ++ back ∧ offset = utf8Size front ∧
        found = front.length := by
  have hiff := @charIndexFrom?_eq_some_iff t.chars offset 0 found
  simp only [Nat.zero_add] at hiff
  rw [← hiff]
  unfold toCharOffset
  cases charIndexFrom? t.chars offset 0 with
  | some index => simp
  | none =>
      by_cases h : t.byteLength < offset <;> simp [h]

/-- A character offset maps onto the text exactly at the end of a leading
part. -/
theorem toByteOffset_eq_ok_iff {t : Text} {offset found : Nat} :
    t.toByteOffset offset = .ok found ↔
      ∃ front back, t.chars = front ++ back ∧ offset = front.length ∧
        found = utf8Size front := by
  have hiff := @byteIndexFrom?_eq_some_iff t.chars offset 0 found
  simp only [Nat.zero_add] at hiff
  rw [← hiff]
  unfold toByteOffset
  cases byteIndexFrom? t.chars offset 0 <;> simp

/-- A span of bytes whose end fits no word is refused. -/
theorem toCharRange_of_overflow {t : Text} {r : ByteRange} (h : maxOffset < r.stop) :
    t.toCharRange r = .error (.byteOffsetOutOfBounds maxOffset t.byteLength) := by
  have hstop : r.stop? = none := if_neg (Nat.not_le.mpr h)
  rw [toCharRange, hstop]

/-- Any other span of bytes is mapped by its start and then by its end. -/
theorem toCharRange_of_fits {t : Text} {r : ByteRange} (h : r.stop ≤ maxOffset) :
    t.toCharRange r = t.toCharOffset r.location >>= fun first =>
      t.toCharOffset r.stop >>= fun last => pure ⟨first, last - first⟩ := by
  have hstop : r.stop? = some r.stop := if_pos h
  rw [toCharRange, hstop]

/-- A span of characters whose end fits no word is refused. -/
theorem toByteRange_of_overflow {t : Text} {r : CharRange} (h : maxOffset < r.stop) :
    t.toByteRange r = .error (.charOffsetOutOfBounds maxOffset t.charLength) := by
  have hstop : r.stop? = none := if_neg (Nat.not_le.mpr h)
  rw [toByteRange, hstop]

/-- Any other span of characters is mapped by its start and then by its end. -/
theorem toByteRange_of_fits {t : Text} {r : CharRange} (h : r.stop ≤ maxOffset) :
    t.toByteRange r = t.toByteOffset r.location >>= fun first =>
      t.toByteOffset r.stop >>= fun last => pure ⟨first, last - first⟩ := by
  have hstop : r.stop? = some r.stop := if_pos h
  rw [toByteRange, hstop]

/-- **Bytes to characters.**  A span of bytes maps onto the text exactly when
its end fits a word and whole characters take it up. -/
theorem toCharRange_eq_ok_iff {t : Text} {r : ByteRange} {chars : CharRange} :
    t.toCharRange r = .ok chars ↔
      ∃ front mid back, t.chars = front ++ mid ++ back ∧
        r = ⟨utf8Size front, utf8Size mid⟩ ∧ chars = ⟨front.length, mid.length⟩ ∧
        r.stop ≤ maxOffset := by
  constructor
  · intro h
    rcases Nat.lt_or_ge maxOffset r.stop with hoverflow | hfits
    · simp [toCharRange_of_overflow hoverflow] at h
    · rw [toCharRange_of_fits hfits] at h
      obtain ⟨first, hstart, hrest⟩ := exists_of_bind_eq_ok h
      obtain ⟨last, hend, hlast⟩ := exists_of_bind_eq_ok hrest
      obtain rfl : _ = chars := Except.ok.inj hlast
      obtain ⟨front, rest, htext, hloc, rfl⟩ := toCharOffset_eq_ok_iff.mp hstart
      obtain ⟨upto, back, htext', hupto, rfl⟩ := toCharOffset_eq_ok_iff.mp hend
      obtain ⟨mid, rfl⟩ : front <+: upto :=
        prefix_of_utf8Size_le ⟨rest, htext.symm⟩ ⟨back, htext'.symm⟩
          (by rw [← hloc, ← hupto]; exact Nat.le_add_right _ _)
      have hlen : r.length = utf8Size mid := by
        rw [utf8Size_append, ByteRange.stop] at hupto
        omega
      exact ⟨front, mid, back, htext', by rw [← hloc, ← hlen], by simp, hfits⟩
  · rintro ⟨front, mid, back, htext, rfl, rfl, hfits⟩
    have hstart : t.toCharOffset (utf8Size front) = .ok front.length :=
      toCharOffset_eq_ok_iff.mpr ⟨front, mid ++ back, by simp [htext], rfl, rfl⟩
    have hend : t.toCharOffset (utf8Size front + utf8Size mid) =
        .ok (front.length + mid.length) :=
      toCharOffset_eq_ok_iff.mpr ⟨front ++ mid, back, htext, by simp, by simp⟩
    rw [toCharRange_of_fits hfits]
    simp [ByteRange.stop, hstart, hend, bind, Except.bind, pure, Except.pure]

/-- **Characters to bytes.**  A span of characters maps onto the text exactly
when its end fits a word and the text has that many characters. -/
theorem toByteRange_eq_ok_iff {t : Text} {r : CharRange} {bytes : ByteRange} :
    t.toByteRange r = .ok bytes ↔
      ∃ front mid back, t.chars = front ++ mid ++ back ∧
        r = ⟨front.length, mid.length⟩ ∧ bytes = ⟨utf8Size front, utf8Size mid⟩ ∧
        r.stop ≤ maxOffset := by
  constructor
  · intro h
    rcases Nat.lt_or_ge maxOffset r.stop with hoverflow | hfits
    · simp [toByteRange_of_overflow hoverflow] at h
    · rw [toByteRange_of_fits hfits] at h
      obtain ⟨first, hstart, hrest⟩ := exists_of_bind_eq_ok h
      obtain ⟨last, hend, hlast⟩ := exists_of_bind_eq_ok hrest
      obtain rfl : _ = bytes := Except.ok.inj hlast
      obtain ⟨front, rest, htext, hloc, rfl⟩ := toByteOffset_eq_ok_iff.mp hstart
      obtain ⟨upto, back, htext', hupto, rfl⟩ := toByteOffset_eq_ok_iff.mp hend
      obtain ⟨mid, rfl⟩ : front <+: upto :=
        List.prefix_of_prefix_length_le ⟨rest, htext.symm⟩ ⟨back, htext'.symm⟩
          (by rw [← hloc, ← hupto]; exact Nat.le_add_right _ _)
      have hlen : r.length = mid.length := by
        rw [List.length_append, CharRange.stop] at hupto
        omega
      exact ⟨front, mid, back, htext', by rw [← hloc, ← hlen], by simp, hfits⟩
  · rintro ⟨front, mid, back, htext, rfl, rfl, hfits⟩
    have hstart : t.toByteOffset front.length = .ok (utf8Size front) :=
      toByteOffset_eq_ok_iff.mpr ⟨front, mid ++ back, by simp [htext], rfl, rfl⟩
    have hend : t.toByteOffset (front.length + mid.length) =
        .ok (utf8Size front + utf8Size mid) :=
      toByteOffset_eq_ok_iff.mpr ⟨front ++ mid, back, htext, by simp, by simp⟩
    rw [toByteRange_of_fits hfits]
    simp [CharRange.stop, hstart, hend, bind, Except.bind, pure, Except.pure]

/-- A span of characters that maps onto the text lies inside it. -/
theorem stop_le_of_toByteRange {t : Text} {r : CharRange} {bytes : ByteRange}
    (h : t.toByteRange r = .ok bytes) : r.stop ≤ t.charLength := by
  obtain ⟨front, mid, back, htext, rfl, -, -⟩ := toByteRange_eq_ok_iff.mp h
  simp [CharRange.stop, charLength, htext]

/-- A span of characters lies inside the text and its end fits a word. -/
def Encloses (t : Text) (r : CharRange) : Prop := r.stop ≤ maxOffset ∧ r.stop ≤ t.charLength

/-- The spans of characters that map onto the text are those inside it. -/
theorem exists_toByteRange_iff {t : Text} {r : CharRange} :
    (∃ bytes, t.toByteRange r = .ok bytes) ↔ t.Encloses r := by
  constructor
  · rintro ⟨bytes, hbytes⟩
    obtain ⟨-, -, -, -, -, -, hfits⟩ := toByteRange_eq_ok_iff.mp hbytes
    exact ⟨hfits, stop_le_of_toByteRange hbytes⟩
  · rintro ⟨hfits, hstop⟩
    unfold CharRange.stop charLength at hstop
    refine ⟨_, toByteRange_eq_ok_iff.mpr ⟨t.chars.take r.location,
      (t.chars.drop r.location).take r.length, (t.chars.drop r.location).drop r.length, ?_, ?_,
      rfl, hfits⟩⟩
    · rw [List.append_assoc, List.take_append_drop, List.take_append_drop]
    · rw [List.length_take, List.length_take, List.length_drop, Nat.min_eq_left (by omega),
        Nat.min_eq_left (by omega)]

/-- A span of characters outside the text maps onto nothing. -/
theorem exists_toByteRange_error_iff {t : Text} {r : CharRange} :
    (∃ e, t.toByteRange r = .error e) ↔ ¬ t.Encloses r := by
  rw [← exists_toByteRange_iff]
  cases t.toByteRange r <;> simp

/-- The characters at the places that `mid` takes up are `mid`. -/
theorem slice_of_chars_eq {t : Text} {front mid back : List Char}
    (h : t.chars = front ++ mid ++ back) :
    t.slice ⟨front.length, mid.length⟩ = String.ofList mid := by
  simp [slice, h]

/-- The text of a span of characters is what the span covers. -/
theorem sliceChars_of_append {t : Text} {front mid back : List Char}
    (h : t.chars = front ++ mid ++ back) (hfits : front.length + mid.length ≤ maxOffset) :
    t.sliceChars ⟨front.length, mid.length⟩ = .ok (String.ofList mid) := by
  have hbytes := toByteRange_eq_ok_iff.mpr ⟨front, mid, back, h, rfl, rfl, hfits⟩
  rw [sliceChars, hbytes, ← slice_of_chars_eq h]
  rfl

/-- A splice at the places that `mid` takes up puts other characters there. -/
theorem splice_of_chars_eq {t : Text} {front mid back : List Char}
    (h : t.chars = front ++ mid ++ back) (replacement : String) :
    t.splice ⟨front.length, mid.length⟩ replacement =
      ⟨front ++ replacement.toList ++ back⟩ := by
  simp [splice, CharRange.stop, h]

/-- **The text of a span.**  A span of bytes has a text exactly when its end
fits a word and the characters of that text take it up. -/
theorem sliceBytes_eq_ok_iff {t : Text} {r : ByteRange} {s : String} :
    t.sliceBytes r = .ok s ↔ Occupies t.chars r s.toList ∧ r.stop ≤ maxOffset := by
  constructor
  · intro h
    obtain ⟨chars, hchars, hslice⟩ := exists_of_bind_eq_ok h
    obtain ⟨front, mid, back, htext, hr, rfl, hfits⟩ := toCharRange_eq_ok_iff.mp hchars
    have hs : s = String.ofList mid := by
      rw [← slice_of_chars_eq htext]
      exact (Except.ok.inj hslice).symm
    exact ⟨⟨front, back, by simp [hs, htext], by simp [hs, hr]⟩, hfits⟩
  · rintro ⟨⟨front, back, htext, rfl⟩, hfits⟩
    have hchars := toCharRange_eq_ok_iff.mpr
      ⟨front, s.toList, back, htext, rfl, rfl, hfits⟩
    simp [sliceBytes, hchars, slice_of_chars_eq htext, bind, Except.bind, pure, Except.pure]

/-- In a text whose size fits a word, every span has the characters that take it up. -/
theorem sliceBytes_of_occupies {t : Text} {r : ByteRange} {mid : List Char}
    (h : Occupies t.chars r mid) (hfits : utf8Size t.chars ≤ maxOffset) :
    t.sliceBytes r = .ok (String.ofList mid) := by
  refine sliceBytes_eq_ok_iff.mpr ⟨?_, Nat.le_trans h.stop_le hfits⟩
  rwa [String.toList_ofList]

end Text

end DeclLint
