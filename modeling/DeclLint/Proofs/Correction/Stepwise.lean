import DeclLint.Proofs.Correction.Splice

/-!
# Corrections, one at a time

The corrections made on a text are spliced in together, with the byte spans that they have
in the original text.  They may as well be made one after another, the last one first, each
as a batch of its own on the text that the ones behind it left and that is indexed anew.
What was changed so far stands behind the span of the next correction, so up to its end the
text is the original one, and the span has the same place in characters and in bytes.

* `Text.toByteRange_of_take` — a span has one place in texts that agree up to its end;
* `CorrectedText.ofCorrections_single` — one correction on a text that others, behind it,
  changed;
* `CorrectedText.ofCorrections_stepwise` — one at a time is all at once.
-/

namespace DeclLint

/-- A span has one place in texts that agree up to its end. -/
theorem Text.toByteRange_of_take {t current : Text} {r : CharRange} {bytes : ByteRange}
    {rest : List Char} (hbytes : t.toByteRange r = .ok bytes)
    (hcurrent : current.chars = t.chars.take r.stop ++ rest) :
    current.toByteRange r = .ok bytes := by
  obtain ⟨front, mid, back, htext, rfl, rfl, hfits⟩ := toByteRange_eq_ok_iff.mp hbytes
  refine toByteRange_eq_ok_iff.mpr ⟨front, mid, rest, ?_, rfl, rfl, hfits⟩
  rw [hcurrent, htext, CharRange.stop, ← List.length_append, List.take_left' rfl]

namespace CorrectedText

/-- A text corrected one correction at a time, the last one first. -/
def stepwise (t : Text) (cs : List Correction) : Text :=
  cs.foldr (fun c current => .ofString (ofCorrections current [c]).value.contents) t

@[simp] theorem stepwise_cons (t : Text) (c : Correction) (cs : List Correction) :
    stepwise t (c :: cs) =
      .ofString (ofCorrections (stepwise t cs) [c]).value.contents := rfl

variable {t : Text} {c : Correction} {cs : List Correction}

/-- **One correction behind others.**  A correction that comes before some others has its
place in the text that these changed, and is made there. -/
theorem ofCorrections_single (hapart : (c :: cs).Pairwise Correction.Before)
    (hinside : ∀ d ∈ c :: cs, ∃ bytes, t.toByteRange d.range = .ok bytes) :
    (spliceAll t cs).toByteRange c.range = t.toByteRange c.range ∧
      (ofCorrections (spliceAll t cs) [c]).value =
        ⟨(spliceAll t (c :: cs)).contents, [c], []⟩ := by
  obtain ⟨bytes, hbytes⟩ := hinside c List.mem_cons_self
  have hplace := Text.toByteRange_of_take hbytes (spliceAll_behind hapart hinside)
  refine ⟨hplace.trans hbytes.symm, ?_⟩
  have hone : ∀ d ∈ [c], ∃ bytes, (spliceAll t cs).toByteRange d.range = .ok bytes := by
    intro d hd
    obtain rfl := List.mem_singleton.mp hd
    exact ⟨bytes, hplace⟩
  rw [ofCorrections_of_apart hone (List.pairwise_singleton _ _)]
  rfl

/-- Made one at a time or all at once, corrections that stand apart give one text. -/
theorem stepwise_eq_spliceAll (hapart : cs.Pairwise Correction.Before)
    (hinside : ∀ d ∈ cs, ∃ bytes, t.toByteRange d.range = .ok bytes) :
    stepwise t cs = spliceAll t cs := by
  induction cs with
  | nil => rfl
  | cons c cs ih =>
      have htail := ih hapart.tail fun d hd => hinside d (List.mem_cons_of_mem c hd)
      obtain ⟨-, hvalue⟩ := ofCorrections_single hapart hinside
      rw [stepwise_cons, htail, hvalue, Text.ofString_contents]

/-- **One at a time is all at once.**  Take the corrections made on a text from the last to
the first, each as a batch of its own on the text that the ones behind it left.  Each one
has in that text the bytes it has in the original one and is made, and after the first one
the text is the corrected one. -/
theorem ofCorrections_stepwise (t : Text) (corrections : List Correction) :
    let corrected := (ofCorrections t corrections).value
    (∀ before c behind, corrected.applied = before ++ c :: behind →
      (stepwise t behind).toByteRange c.range = t.toByteRange c.range ∧
        (ofCorrections (stepwise t behind) [c]).value =
          ⟨(stepwise t (c :: behind)).contents, [c], []⟩) ∧
      (stepwise t corrected.applied).contents = corrected.contents := by
  intro corrected
  have hapart : corrected.applied.Pairwise Correction.Before := applied_apart t corrections
  have hinside : ∀ d ∈ corrected.applied, ∃ bytes, t.toByteRange d.range = .ok bytes :=
    (ofCorrections_selection t corrections).inside
  refine ⟨?_, ?_⟩
  · intro before c behind happlied
    rw [happlied] at hapart hinside
    have hlast := (List.pairwise_append.mp hapart).2.1
    have hmapped : ∀ d ∈ c :: behind, ∃ bytes, t.toByteRange d.range = .ok bytes :=
      fun d hd => hinside d (List.mem_append_right before hd)
    obtain ⟨hplace, hvalue⟩ := ofCorrections_single hlast hmapped
    have hbehind : stepwise t behind = spliceAll t behind :=
      stepwise_eq_spliceAll hlast.tail fun d hd => hmapped d (List.mem_cons_of_mem c hd)
    rw [hbehind, stepwise_eq_spliceAll hlast hmapped]
    exact ⟨hplace, hvalue⟩
  · rw [stepwise_eq_spliceAll hapart hinside]
    exact (ofCorrections_contents t corrections).symm

end CorrectedText

end DeclLint
