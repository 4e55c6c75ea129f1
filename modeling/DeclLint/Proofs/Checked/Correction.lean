import DeclLint.Proofs.Checked.Operation
import DeclLint.Proofs.Correction.Splice

/-!
# Corrections applied with checked operations

The end of a span is the sum of two words, and corrections may have any span, so not every
end fits a word.  Ends are added up all the same where spans are compared and where bytes
are replaced, without a look at what they come to.  That is safe because of what was done
before: a correction is compared only after it was found inside the text, and with one that
was found there too; and bytes are replaced from the back, so a text that has changed is
still the original one up to the end of the next span.

* `Checked.toCharRange_eq`, `Checked.sliceBytes_eq` — conversions and slices;
* `Checked.intersects_eq` — spans whose ends fit can be compared;
* `Checked.select_eq`, `Checked.spliceAll_eq` — the selection and the splices;
* `Checked.ofCorrections_eq` — no list of corrections leads to a fault.
-/

namespace DeclLint

namespace Checked

variable {ε : Type}

/-- The span of characters that a span of bytes covers. -/
def toCharRange (t : Text) (r : ByteRange) : Checked CoordinateError CharRange :=
  match r.stop? with
  | none => .error (.refused (.byteOffsetOutOfBounds maxOffset t.byteLength))
  | some stop => do
      let first ← ofExcept (t.toCharOffset r.location)
      let last ← ofExcept (t.toCharOffset stop)
      let length ← sub last first
      pure ⟨first, length⟩

/-- The span of bytes that a span of characters covers. -/
def toByteRange (t : Text) (r : CharRange) : Checked CoordinateError ByteRange :=
  match r.stop? with
  | none => .error (.refused (.charOffsetOutOfBounds maxOffset t.charLength))
  | some stop => do
      let first ← ofExcept (t.toByteOffset r.location)
      let last ← ofExcept (t.toByteOffset stop)
      let length ← sub last first
      pure ⟨first, length⟩

/-- The text of a span of bytes, cut out after both ends were looked up. -/
def sliceBytes (t : Text) (r : ByteRange) : Checked CoordinateError String := do
  let _ ← toCharRange t r
  let stop ← add r.location r.length
  slice t r.location stop

/-- **Bytes to characters.**  The characters before the start of a span are no more than
those before its end. -/
theorem toCharRange_eq (t : Text) (r : ByteRange) :
    toCharRange t r = ofExcept (t.toCharRange r) := by
  unfold toCharRange Text.toCharRange
  cases hstop : r.stop? with
  | none => rfl
  | some stop =>
      dsimp only
      cases hfirst : t.toCharOffset r.location with
      | error e => rfl
      | ok first =>
          cases hlast : t.toCharOffset stop with
          | error e => rfl
          | ok last =>
              have hlength : first ≤ last := by
                obtain ⟨front, rest, htext, hlocation, rfl⟩ :=
                  Text.toCharOffset_eq_ok_iff.mp hfirst
                obtain ⟨upto, back, htext', hupto, rfl⟩ := Text.toCharOffset_eq_ok_iff.mp hlast
                refine (prefix_of_utf8Size_le ⟨rest, htext.symm⟩ ⟨back, htext'.symm⟩ ?_).length_le
                rw [← hlocation, ← hupto, ← (offsetSum?_eq_some_iff.mp hstop).1]
                exact Nat.le_add_right _ _
              simp only [ofExcept_ok, ok_bind, sub_eq hlength]
              rfl

/-- **Characters to bytes.**  The same with the roles exchanged. -/
theorem toByteRange_eq (t : Text) (r : CharRange) :
    toByteRange t r = ofExcept (t.toByteRange r) := by
  unfold toByteRange Text.toByteRange
  cases hstop : r.stop? with
  | none => rfl
  | some stop =>
      dsimp only
      cases hfirst : t.toByteOffset r.location with
      | error e => rfl
      | ok first =>
          cases hlast : t.toByteOffset stop with
          | error e => rfl
          | ok last =>
              have hlength : first ≤ last := by
                obtain ⟨front, rest, htext, hlocation, rfl⟩ :=
                  Text.toByteOffset_eq_ok_iff.mp hfirst
                obtain ⟨upto, back, htext', hupto, rfl⟩ := Text.toByteOffset_eq_ok_iff.mp hlast
                have hle : front.length ≤ upto.length := by
                  rw [← hlocation, ← hupto, ← (offsetSum?_eq_some_iff.mp hstop).1]
                  exact Nat.le_add_right _ _
                obtain ⟨more, rfl⟩ :=
                  List.prefix_of_prefix_length_le ⟨rest, htext.symm⟩ ⟨back, htext'.symm⟩ hle
                rw [utf8Size_append]
                exact Nat.le_add_right _ _
              simp only [ofExcept_ok, ok_bind, sub_eq hlength]
              rfl

/-- **The text of a span.**  Once both ends were looked up, their sum fits and the text may
be cut at both. -/
theorem sliceBytes_eq (t : Text) (r : ByteRange) :
    sliceBytes t r = ofExcept (t.sliceBytes r) := by
  unfold sliceBytes Text.sliceBytes
  rw [toCharRange_eq]
  cases hrange : t.toCharRange r with
  | error e => rfl
  | ok chars =>
      obtain ⟨front, mid, back, htext, rfl, rfl, hfits⟩ := Text.toCharRange_eq_ok_iff.mp hrange
      have hslice := slice_of_append (ε := CoordinateError) htext
      rw [ofExcept_ok, ok_bind, add_eq hfits, ok_bind, hslice, ← Text.slice_of_chars_eq htext]
      rfl

/-- Whether two spans share text.  An end is added up only where it is needed. -/
def intersects (a b : CharRange) : Checked ε Bool :=
  if a.length = 0 ∧ b.length = 0 then pure (a.location = b.location)
  else if a.length = 0 then
    if b.location < a.location then do
      let stop ← add b.location b.length
      pure (a.location < stop)
    else pure false
  else if b.length = 0 then
    if a.location < b.location then do
      let stop ← add a.location a.length
      pure (b.location < stop)
    else pure false
  else do
    let stop ← add b.location b.length
    if a.location < stop then do
      let stop ← add a.location a.length
      pure (b.location < stop)
    else pure false

/-- **Spans whose ends fit can be compared.** -/
theorem intersects_eq {a b : CharRange} (ha : a.stop ≤ maxOffset) (hb : b.stop ≤ maxOffset) :
    (intersects a b : Checked ε Bool) = .ok (a.intersects b) := by
  have hstop : (add a.location a.length : Checked ε Nat) = .ok a.stop := add_eq ha
  have hstop' : (add b.location b.length : Checked ε Nat) = .ok b.stop := add_eq hb
  unfold intersects CharRange.intersects
  simp only [hstop, hstop', ok_bind]
  split
  · rfl
  split
  · by_cases hlt : b.location < a.location <;> simp [hlt, pure, Except.pure]
  split
  · by_cases hlt : a.location < b.location <;> simp [hlt, pure, Except.pure]
  · by_cases hlt : a.location < b.stop <;> simp [hlt, pure, Except.pure]

/-- The last accepted correction, if one that comes next conflicts with it. -/
def inTheWay (last : Option Correction) (c : Correction) : Checked ε (Option Correction) :=
  match last with
  | none => pure none
  | some l => do
      let shared ← intersects l.range c.range
      pure (if shared || c.range.location == l.range.location then some l else none)

/-- Split sorted corrections into accepted ones, each with the bytes that it replaces, and
dropped ones. -/
def select (t : Text) (last : Option Correction) :
    List Correction → Checked ε (Logged (List (Correction × ByteRange) × List Correction))
  | [] => pure (pure ([], []))
  | c :: cs => do
      match ← attempt (toByteRange t c.range) with
      | .error e => do
          let others ← select t last cs
          pure do
            Logged.note .warning
              s!"{c.ruleId} correction at {c.location.render} not applied: {e.message}"
            let (accepted, dropped) ← others
            pure (accepted, c :: dropped)
      | .ok bytes => do
          match ← inTheWay last c with
          | some l => do
              let others ← select t last cs
              pure do
                Logged.note .debug
                  s!"{c.ruleId} correction at {c.location.render} not applied: overlaps {l.ruleId} correction"
                let (accepted, dropped) ← others
                pure (accepted, c :: dropped)
          | none => do
              let others ← select t (some c) cs
              pure do
                let (accepted, dropped) ← others
                pure ((c, bytes) :: accepted, dropped)

/-- A text with the bytes of a span replaced. -/
def replaceRange (t : Text) (r : ByteRange) (replacement : String) : Checked ε Text := do
  let stop ← add r.location r.length
  let first ← boundary t r.location
  let last ← boundary t stop
  let length ← sub last first
  pure (t.splice ⟨first, length⟩ replacement)

/-- Replace the bytes of accepted corrections, the last one first. -/
def spliceAll (t : Text) : List (Correction × ByteRange) → Checked ε Text
  | [] => pure t
  | (c, bytes) :: others => do
      let current ← spliceAll t others
      replaceRange current bytes c.replacement

/-- Apply corrections to a text. -/
def ofCorrections (t : Text) (corrections : List Correction) :
    Checked ε (Logged CorrectedText) := do
  let selected ← select t none (corrections.mergeSort Correction.precedes)
  let corrected ← spliceAll t selected.value.1
  pure ⟨⟨corrected.contents, selected.value.1.map Prod.fst, selected.value.2⟩, selected.lines⟩

/-- What is in the way of a correction inside the text, if the last accepted one is. -/
theorem inTheWay_eq {last : Option Correction} {c : Correction}
    (hlast : ∀ l ∈ last, l.range.stop ≤ maxOffset) (hc : c.range.stop ≤ maxOffset) :
    (inTheWay last c : Checked ε (Option Correction)) =
      .ok (last.filter fun l => Correction.conflicts l c) := by
  cases last with
  | none => rfl
  | some l =>
      rw [inTheWay, intersects_eq (hlast l rfl) hc, ok_bind, Option.filter_some]
      rfl

/-- A selection with the bytes that each accepted correction replaces. -/
structure Selects (t : Text) (plain : Logged (List Correction × List Correction))
    (selected : Logged (List (Correction × ByteRange) × List Correction)) : Prop where
  accepted_eq : selected.value.1.map Prod.fst = plain.value.1
  dropped_eq : selected.value.2 = plain.value.2
  lines_eq : selected.lines = plain.lines
  toByteRange_eq : ∀ p ∈ selected.value.1, t.toByteRange p.1.range = .ok p.2

/-- **Selecting.**  Only corrections inside the text are compared, so no end overflows. -/
theorem select_eq {t : Text} {last : Option Correction} (cs : List Correction)
    (hlast : ∀ l ∈ last, l.range.stop ≤ maxOffset) :
    ∃ selected, (select t last cs : Checked ε _) = .ok selected ∧
      Selects t (Correction.select t last cs) selected := by
  induction cs generalizing last with
  | nil => exact ⟨_, rfl, rfl, rfl, rfl, by simp [pure]⟩
  | cons c cs ih =>
      unfold select Correction.select
      rw [Checked.toByteRange_eq, attempt_ofExcept, ok_bind]
      cases hbytes : t.toByteRange c.range with
      | error e =>
          obtain ⟨others, hothers, haccepted, hdropped, hlines, hinside⟩ := ih hlast
          refine ⟨_, by rw [hothers]; rfl, ?_⟩
          exact ⟨haccepted, congrArg (c :: ·) hdropped, by simp [hlines], hinside⟩
      | ok bytes =>
          obtain ⟨-, -, -, -, -, -, hfits⟩ := Text.toByteRange_eq_ok_iff.mp hbytes
          dsimp only
          rw [inTheWay_eq hlast hfits, ok_bind]
          cases last.filter fun l => Correction.conflicts l c with
          | some l =>
              obtain ⟨others, hothers, haccepted, hdropped, hlines, hinside⟩ := ih hlast
              refine ⟨_, by rw [hothers]; rfl, ?_⟩
              exact ⟨haccepted, congrArg (c :: ·) hdropped, by simp [hlines], hinside⟩
          | none =>
              have hfirst : ∀ l ∈ some c, l.range.stop ≤ maxOffset := by
                intro l hl
                obtain rfl := Option.mem_some_iff.mp hl
                exact hfits
              obtain ⟨others, hothers, haccepted, hdropped, hlines, hinside⟩ := ih hfirst
              refine ⟨_, by rw [hothers]; rfl, ?_⟩
              exact ⟨congrArg (c :: ·) haccepted, hdropped, by simp [hlines],
                List.forall_mem_cons.mpr ⟨hbytes, hinside⟩⟩

/-- **Replacing.**  Up to the end of a span a text that was changed behind it is the
original one, so it may be cut where that one may be cut. -/
theorem replaceRange_eq {t current : Text} {r : CharRange} {bytes : ByteRange}
    {rest : List Char} {replacement : String} (hbytes : t.toByteRange r = .ok bytes)
    (hfits : bytes.stop ≤ maxOffset) (hcurrent : current.chars = t.chars.take r.stop ++ rest) :
    (replaceRange current bytes replacement : Checked ε Text) =
      .ok (current.splice r replacement) := by
  obtain ⟨front, mid, back, htext, rfl, rfl, -⟩ := Text.toByteRange_eq_ok_iff.mp hbytes
  have hchars : current.chars = (front ++ mid) ++ rest := by
    rw [hcurrent, htext, CharRange.stop, ← List.length_append, List.take_left' rfl]
  have hstop := boundary_of_append (ε := ε) hchars
  rw [utf8Size_append, List.length_append] at hstop
  rw [replaceRange, add_eq hfits, ok_bind,
    boundary_of_append (hchars.trans (List.append_assoc _ _ _)), ok_bind, hstop, ok_bind,
    sub_eq (Nat.le_add_right _ _), ok_bind, Nat.add_sub_cancel_left]
  rfl

/-- **Back to front.**  Each replacement leaves what is before it as it was, which is where
all others are made. -/
theorem spliceAll_eq {t : Text} {selected : List (Correction × ByteRange)}
    (hsize : t.byteLength ≤ maxOffset)
    (hapart : (selected.map Prod.fst).Pairwise Correction.Before)
    (hbytes : ∀ p ∈ selected, t.toByteRange p.1.range = .ok p.2) :
    (spliceAll t selected : Checked ε Text) =
      .ok (CorrectedText.spliceAll t (selected.map Prod.fst)) := by
  induction selected with
  | nil => rfl
  | cons p others ih =>
      obtain ⟨c, bytes⟩ := p
      obtain ⟨hfirst, hothers⟩ := List.forall_mem_cons.mp hbytes
      have hinside : ∀ d ∈ c :: others.map Prod.fst,
          ∃ bytes, t.toByteRange d.range = .ok bytes := by
        intro d hd
        obtain ⟨p, hp, rfl⟩ :=
          List.mem_map.mp (show d ∈ ((c, bytes) :: others).map Prod.fst from hd)
        exact ⟨p.2, hbytes p hp⟩
      have hbehind := CorrectedText.spliceAll_behind hapart hinside
      have hfits : bytes.stop ≤ maxOffset := by
        obtain ⟨front, mid, back, htext, -, rfl, -⟩ := Text.toByteRange_eq_ok_iff.mp hfirst
        refine Nat.le_trans ?_ hsize
        rw [Text.byteLength, htext, utf8Size_append, utf8Size_append]
        exact Nat.le_add_right _ _
      rw [spliceAll, ih (List.pairwise_cons.mp hapart).2 hothers, ok_bind,
        replaceRange_eq hfirst hfits hbehind]
      rfl

/-- **No list of corrections is fatal.**  Corrections with any spans at all are applied
without a fault, to a text whose bytes can be counted. -/
theorem ofCorrections_eq {t : Text} (corrections : List Correction)
    (hsize : t.byteLength ≤ maxOffset) :
    (ofCorrections t corrections : Checked ε (Logged CorrectedText)) =
      .ok (CorrectedText.ofCorrections t corrections) := by
  obtain ⟨selected, hselected, haccepted, hdropped, hlines, hbytes⟩ :=
    @select_eq ε t none (corrections.mergeSort Correction.precedes) (by simp)
  have hapart := CorrectedText.applied_apart t corrections
  have hspliced := spliceAll_eq (ε := ε) hsize (haccepted ▸ hapart) hbytes
  rw [ofCorrections, hselected, ok_bind, hspliced, ok_bind, haccepted, hdropped, hlines]
  unfold CorrectedText.ofCorrections
  simp only [Bind.bind, pure, Except.pure, List.append_nil]

end Checked

end DeclLint
