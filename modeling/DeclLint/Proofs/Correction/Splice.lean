import DeclLint.Proofs.Correction.Selection

/-!
# The corrected text as a splice of the original

Accepted corrections are spliced into a text that changes under them, the last
one first.  Read from the left, the result is made of the original text alone:
what stands before the first correction, its replacement, what stands between
it and the second, and so on to the end.

The same splices can be made on the bytes of the text, at the byte spans that
the corrections have in the original (`spliceAllBytes`).  Both readings agree.

* `spliceAll_eq_take_append` — from any place before the first correction on, the
  result is the splice from the left;
* `spliceAllBytes_eq` — splicing bytes from the back gives the bytes of the result;
* `ofCorrections_splice` — both, for every text and every list of corrections.
-/

namespace DeclLint

/-- The bytes of some characters in UTF-8. -/
def utf8Bytes (cs : List Char) : List UInt8 := cs.flatMap String.utf8EncodeChar

@[simp] theorem utf8Bytes_append (xs ys : List Char) :
    utf8Bytes (xs ++ ys) = utf8Bytes xs ++ utf8Bytes ys :=
  List.flatMap_append

@[simp] theorem length_utf8Bytes (cs : List Char) : (utf8Bytes cs).length = utf8Size cs := by
  induction cs with
  | nil => rfl
  | cons c cs ih =>
      have hcons : utf8Bytes (c :: cs) = String.utf8EncodeChar c ++ utf8Bytes cs := rfl
      rw [hcons, List.length_append, ih, String.length_utf8EncodeChar, utf8Size_cons]

/-- Some bytes with those of a span replaced. -/
def replaceBytes (bytes : List UInt8) (r : ByteRange) (replacement : List UInt8) :
    List UInt8 :=
  bytes.take r.location ++ replacement ++ bytes.drop r.stop

namespace Text

/-- The characters of a text from one offset up to another. -/
def between (t : Text) (start stop : Nat) : List Char :=
  (t.chars.drop start).take (stop - start)

theorem take_append_between (t : Text) {start stop : Nat} (h : start ≤ stop) :
    t.chars.take start ++ t.between start stop = t.chars.take stop := by
  obtain ⟨more, rfl⟩ := Nat.exists_eq_add_of_le h
  rw [between, Nat.add_sub_cancel_left, List.take_add]

end Text

namespace CorrectedText

/-- The text from an offset on, with corrections spliced in from left to
right. -/
def spliceFrom (t : Text) (start : Nat) : List Correction → List Char
  | [] => t.chars.drop start
  | c :: cs =>
      t.between start c.range.location ++ c.replacement.toList ++
        spliceFrom t c.range.stop cs

/-- Splice corrections into the bytes of a text, the last one first, each at
the span of bytes that it has in the original text. -/
def spliceAllBytes (t : Text) : List Correction → Except CoordinateError (List UInt8)
  | [] => .ok (utf8Bytes t.chars)
  | c :: cs => do
      let r ← t.toByteRange c.range
      let bytes ← spliceAllBytes t cs
      pure (replaceBytes bytes r (utf8Bytes c.replacement.toList))

@[simp] theorem spliceAll_cons (t : Text) (c : Correction) (cs : List Correction) :
    spliceAll t (c :: cs) = (spliceAll t cs).splice c.range c.replacement := rfl

/-- **Back to front is left to right.**  Up to a place before the first
correction the corrected text is the original one; from there on it is the
splice from the left. -/
theorem spliceAll_eq_take_append {t : Text} {cs : List Correction} {start : Nat}
    (hapart : cs.Pairwise Correction.Before)
    (hinside : ∀ c ∈ cs, c.range.stop ≤ t.charLength)
    (hstart : ∀ c ∈ cs, start ≤ c.range.location) (hle : start ≤ t.charLength) :
    (spliceAll t cs).chars = t.chars.take start ++ spliceFrom t start cs := by
  induction cs generalizing start with
  | nil => simp [spliceAll, spliceFrom]
  | cons c cs ih =>
      obtain ⟨hfirst, hrest⟩ := List.pairwise_cons.mp hapart
      have hstop : c.range.stop ≤ t.charLength := hinside c List.mem_cons_self
      have hlocation : c.range.location ≤ c.range.stop := Nat.le_add_right _ _
      have htail : (spliceAll t cs).chars =
          t.chars.take c.range.stop ++ spliceFrom t c.range.stop cs := by
        apply ih hrest ?_ ?_ hstop
        · intro d hd
          exact hinside d (List.mem_cons_of_mem c hd)
        · intro d hd
          exact (hfirst d hd).stop_le
      have hlength : (t.chars.take c.range.stop).length = c.range.stop :=
        List.length_take_of_le hstop
      have hbefore : (spliceAll t cs).chars.take c.range.location =
          t.chars.take c.range.location := by
        rw [htail, List.take_append_of_le_length (by omega), List.take_take,
          Nat.min_eq_left hlocation]
      have hbehind : (spliceAll t cs).chars.drop c.range.stop =
          spliceFrom t c.range.stop cs := by
        rw [htail, List.drop_left' hlength]
      calc (spliceAll t (c :: cs)).chars
          = t.chars.take c.range.location ++ c.replacement.toList ++
              spliceFrom t c.range.stop cs := by
            rw [spliceAll_cons, Text.splice, hbefore, hbehind]
        _ = t.chars.take start ++ spliceFrom t start (c :: cs) := by
            rw [← t.take_append_between (hstart c List.mem_cons_self)]
            simp [spliceFrom, List.append_assoc]

/-- Corrections behind one leave the text up to its end as it was. -/
theorem spliceAll_behind {t : Text} {c : Correction} {cs : List Correction}
    (hapart : (c :: cs).Pairwise Correction.Before)
    (hinside : ∀ d ∈ c :: cs, ∃ bytes, t.toByteRange d.range = .ok bytes) :
    (spliceAll t cs).chars = t.chars.take c.range.stop ++ spliceFrom t c.range.stop cs := by
  obtain ⟨hfirst, hrest⟩ := List.pairwise_cons.mp hapart
  have hstop : ∀ d ∈ c :: cs, d.range.stop ≤ t.charLength := by
    intro d hd
    obtain ⟨bytes, hbytes⟩ := hinside d hd
    exact Text.stop_le_of_toByteRange hbytes
  refine spliceAll_eq_take_append hrest ?_ ?_ (hstop c List.mem_cons_self)
  · intro d hd
    exact hstop d (List.mem_cons_of_mem c hd)
  · intro d hd
    exact (hfirst d hd).stop_le

/-- A splice of characters is the splice of their bytes, if what the two splice
into agrees with the original text up to the end of the replaced span. -/
theorem utf8Bytes_splice {t current : Text} {r : CharRange} {bytes : ByteRange}
    {rest : List Char} {replacement : String} (hbytes : t.toByteRange r = .ok bytes)
    (hcurrent : current.chars = t.chars.take r.stop ++ rest) :
    utf8Bytes (current.splice r replacement).chars =
      replaceBytes (utf8Bytes current.chars) bytes (utf8Bytes replacement.toList) := by
  obtain ⟨front, mid, back, htext, rfl, rfl, -⟩ := Text.toByteRange_eq_ok_iff.mp hbytes
  have hchars : current.chars = front ++ (mid ++ rest) := by
    rw [hcurrent, htext, CharRange.stop, ← List.length_append,
      List.take_left' rfl, List.append_assoc]
  have htake : (utf8Bytes current.chars).take (utf8Size front) = utf8Bytes front := by
    rw [hchars, utf8Bytes_append, List.take_left' (length_utf8Bytes front)]
  have hdrop : (utf8Bytes current.chars).drop (utf8Size front + utf8Size mid) =
      utf8Bytes rest := by
    rw [hchars, ← List.append_assoc, utf8Bytes_append, List.drop_left' (by simp)]
  have hsplice : (current.splice ⟨front.length, mid.length⟩ replacement).chars =
      front ++ replacement.toList ++ rest := by
    simp only [Text.splice, CharRange.stop]
    rw [hchars, List.take_left' rfl, ← List.append_assoc, List.drop_left' (by simp)]
  simp only [replaceBytes, ByteRange.stop]
  rw [htake, hdrop, hsplice, utf8Bytes_append, utf8Bytes_append]

/-- **Bytes agree with characters.**  Splicing the bytes from the back, at the
spans of the original text, gives the bytes of the corrected text. -/
theorem spliceAllBytes_eq {t : Text} {cs : List Correction}
    (hapart : cs.Pairwise Correction.Before)
    (hinside : ∀ c ∈ cs, ∃ bytes, t.toByteRange c.range = .ok bytes) :
    spliceAllBytes t cs = .ok (utf8Bytes (spliceAll t cs).chars) := by
  induction cs with
  | nil => rfl
  | cons c cs ih =>
      obtain ⟨bytes, hbytes⟩ := hinside c List.mem_cons_self
      have htail := ih hapart.tail fun d hd => hinside d (List.mem_cons_of_mem c hd)
      rw [spliceAll_cons, utf8Bytes_splice hbytes (spliceAll_behind hapart hinside)]
      simp [spliceAllBytes, hbytes, htail, bind, Except.bind, pure, Except.pure]

/-- The corrections made on a text are a selection from those proposed. -/
theorem ofCorrections_selection (t : Text) (corrections : List Correction) :
    Correction.Selection t none (corrections.mergeSort Correction.precedes)
      (ofCorrections t corrections).value.applied
      (ofCorrections t corrections).value.dropped :=
  Correction.selection_select t none _

/-- The corrections made on a text stand apart. -/
theorem applied_apart (t : Text) (corrections : List Correction) :
    (ofCorrections t corrections).value.applied.Pairwise Correction.Before := by
  refine ((ofCorrections_selection t corrections).apart ?_ (by simp)).1
  exact (Correction.pairwise_precedes_mergeSort corrections).imp
    Correction.precedes_start_le

/-- The corrections made on a text lie inside it. -/
theorem applied_inside (t : Text) (corrections : List Correction) :
    ∀ c ∈ (ofCorrections t corrections).value.applied,
      c.range.stop ≤ t.charLength := by
  intro c hc
  obtain ⟨bytes, hbytes⟩ := (ofCorrections_selection t corrections).inside c hc
  exact Text.stop_le_of_toByteRange hbytes

/-- The contents after corrections are those of the accepted ones, spliced in. -/
theorem ofCorrections_contents (t : Text) (corrections : List Correction) :
    (ofCorrections t corrections).value.contents =
      (spliceAll t (ofCorrections t corrections).value.applied).contents := rfl

/-- Corrections that map onto the text, each of which starts behind the one before
it, are all made in that order. -/
theorem ofCorrections_of_apart {t : Text} {corrections : List Correction}
    (hinside : ∀ c ∈ corrections, ∃ bytes, t.toByteRange c.range = .ok bytes)
    (hapart : corrections.Pairwise Correction.Before) :
    (ofCorrections t corrections).value = ⟨(spliceAll t corrections).contents, corrections, []⟩ := by
  have hsorted : corrections.mergeSort Correction.precedes = corrections := by
    refine List.mergeSort_of_pairwise (hapart.imp fun h => ?_)
    simp [Correction.precedes, h.start_lt]
  have hselect : (Correction.select t none corrections).value = (corrections, []) :=
    Correction.select_of_apart hinside hapart (by simp)
  unfold ofCorrections
  rw [hsorted, Logged.value_bind, hselect]
  rfl

/-- **The corrected text.**  For every text and every list of corrections, those
made are among those proposed, lie inside the text, start one after another and
overlap nowhere; the contents are the original text, left to right, with their
replacements in place of their spans; and replacing the bytes of these spans in
the original, last one first, gives the bytes of the same contents. -/
theorem ofCorrections_splice (t : Text) (corrections : List Correction) :
    let corrected := (ofCorrections t corrections).value
    (corrected.applied ++ corrected.dropped).Perm corrections ∧
      (∀ c ∈ corrected.applied, c.range.stop ≤ t.charLength) ∧
      corrected.applied.Pairwise (fun a b =>
        a.range.location < b.range.location ∧ a.range.stop ≤ b.range.location) ∧
      corrected.contents.toList = spliceFrom t 0 corrected.applied ∧
      spliceAllBytes t corrected.applied = .ok (utf8Bytes corrected.contents.toList) := by
  intro corrected
  have happlied : corrected.applied.Pairwise Correction.Before := applied_apart t corrections
  have hinside := applied_inside t corrections
  have hcontents : corrected.contents.toList = (spliceAll t corrected.applied).chars := by
    simp only [corrected, ofCorrections_contents, Text.contents, String.toList_ofList]
  refine ⟨?_, hinside, ?_, ?_, ?_⟩
  · exact (Correction.select_perm t none _).trans (List.mergeSort_perm corrections _)
  · exact happlied.imp fun h => ⟨h.start_lt, h.stop_le⟩
  · rw [hcontents, spliceAll_eq_take_append happlied hinside (fun _ _ => Nat.zero_le _)
      (Nat.zero_le _), List.take_zero, List.nil_append]
  · rw [hcontents]
    exact spliceAllBytes_eq happlied (ofCorrections_selection t corrections).inside

end CorrectedText

end DeclLint
