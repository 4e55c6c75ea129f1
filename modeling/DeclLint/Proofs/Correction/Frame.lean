import DeclLint.Proofs.Correction.Splice

/-!
# What corrections leave alone

Corrections that stand apart cut a text into stretches that are kept, with the span of
one correction between any two of them.  The original text has the replaced characters
there, the corrected one the replacements; the stretches are the same in both
(`CorrectedText.kept`), and what they hold is all that lies outside every span.

* `Text.outside` — the characters of a text outside some corrections;
* `CorrectedText.flatten_kept` — the stretches hold exactly these;
* `CorrectedText.weave_replaced`, `CorrectedText.weave_replacements` — the original and
  the corrected text, woven from the stretches;
* `CorrectedText.ofCorrections_frame` — so nothing else changes.
-/

namespace DeclLint

/-- Kept stretches with other ones between them, the first kept one first. -/
def weave : List (List Char) → List (List Char) → List Char
  | kept :: others, edit :: edits => kept ++ edit ++ weave others edits
  | kept, [] => kept.flatten
  | [], _ :: _ => []

/-- What is kept stays in order. -/
theorem flatten_sublist_weave {kept edits : List (List Char)} (h : edits.length < kept.length) :
    kept.flatten.Sublist (weave kept edits) := by
  induction edits generalizing kept with
  | nil => cases kept <;> exact List.Sublist.refl _
  | cons edit edits ih =>
      cases kept with
      | nil => simp at h
      | cons first others =>
          have hothers := ih (Nat.lt_of_succ_lt_succ h)
          rw [List.flatten_cons, weave, List.append_assoc]
          exact (hothers.trans (List.sublist_append_right edit _)).append_left first

namespace Text

/-- Some characters, the first of them at a given place, without those in the spans of
corrections. -/
def outsideFrom (start : Nat) (chars : List Char) (cs : List Correction) : List Char :=
  ((chars.zipIdx start).filter fun p =>
    cs.all fun c => decide (p.2 < c.range.location ∨ c.range.stop ≤ p.2)).map Prod.fst

/-- The characters of a text that lie outside the spans of corrections. -/
def outside (t : Text) (cs : List Correction) : List Char := outsideFrom 0 t.chars cs

theorem outsideFrom_append (start : Nat) (xs ys : List Char) (cs : List Correction) :
    outsideFrom start (xs ++ ys) cs =
      outsideFrom start xs cs ++ outsideFrom (start + xs.length) ys cs := by
  simp [outsideFrom, List.zipIdx_append]

/-- Characters before every correction are outside. -/
theorem outsideFrom_of_before {start : Nat} {chars : List Char} {cs : List Correction}
    (h : ∀ c ∈ cs, start + chars.length ≤ c.range.location) :
    outsideFrom start chars cs = chars := by
  have hall : ∀ p ∈ chars.zipIdx start,
      cs.all (fun c => decide (p.2 < c.range.location ∨ c.range.stop ≤ p.2)) = true := by
    intro p hp
    refine List.all_eq_true.mpr fun c hc => decide_eq_true (.inl ?_)
    have hlt := List.snd_lt_add_of_mem_zipIdx hp
    exact Nat.lt_of_lt_of_le hlt (Nat.add_comm _ _ ▸ h c hc)
  rw [outsideFrom, List.filter_eq_self.mpr hall, List.zipIdx_map_fst]

/-- Characters of the span of a correction are not outside. -/
theorem outsideFrom_of_within {start : Nat} {chars : List Char} {cs : List Correction}
    {c : Correction} (hc : c ∈ cs) (hstart : c.range.location ≤ start)
    (hstop : start + chars.length ≤ c.range.stop) : outsideFrom start chars cs = [] := by
  have hnone : ∀ p ∈ chars.zipIdx start,
      ¬ cs.all (fun c => decide (p.2 < c.range.location ∨ c.range.stop ≤ p.2)) = true := by
    intro p hp hall
    have hout := of_decide_eq_true (List.all_eq_true.mp hall c hc)
    have hle := List.le_snd_of_mem_zipIdx hp
    have hlt := List.snd_lt_add_of_mem_zipIdx hp
    omega
  rw [outsideFrom, List.filter_eq_nil_iff.mpr hnone, List.map_nil]

/-- Behind its span a correction is no longer looked at. -/
theorem outsideFrom_cons_of_behind {start : Nat} {chars : List Char} {c : Correction}
    {cs : List Correction} (h : c.range.stop ≤ start) :
    outsideFrom start chars (c :: cs) = outsideFrom start chars cs := by
  unfold outsideFrom
  congr 1
  refine List.filter_congr fun p hp => ?_
  have hle := List.le_snd_of_mem_zipIdx hp
  rw [List.all_cons, decide_eq_true (.inr (Nat.le_trans h hle)), Bool.true_and]

/-- The length of what is between two offsets of a text. -/
theorem length_between (t : Text) {start stop : Nat} (h : stop ≤ t.charLength) :
    (t.between start stop).length = stop - start := by
  unfold charLength at h
  rw [between, List.length_take, List.length_drop]
  omega

/-- The text from an offset on, cut at a later one. -/
theorem drop_eq_between_append (t : Text) {start stop : Nat} (h : start ≤ stop) :
    t.chars.drop start = t.between start stop ++ t.chars.drop stop := by
  obtain ⟨more, rfl⟩ := Nat.exists_eq_add_of_le h
  rw [between, Nat.add_sub_cancel_left, ← List.drop_drop, List.take_append_drop]

end Text

namespace CorrectedText

/-- The stretches of a text that corrections keep, from an offset on. -/
def keptFrom (t : Text) (start : Nat) : List Correction → List (List Char)
  | [] => [t.chars.drop start]
  | c :: cs => t.between start c.range.location :: keptFrom t c.range.stop cs

/-- The stretches of a text that corrections keep. -/
def kept (t : Text) (cs : List Correction) : List (List Char) := keptFrom t 0 cs

@[simp] theorem length_keptFrom (t : Text) (start : Nat) (cs : List Correction) :
    (keptFrom t start cs).length = cs.length + 1 := by
  induction cs generalizing start with
  | nil => rfl
  | cons c cs ih => simp [keptFrom, ih]

/-- The corrected text is woven from what is kept and the replacements. -/
theorem weave_replacements (t : Text) (start : Nat) (cs : List Correction) :
    weave (keptFrom t start cs) (cs.map fun c => c.replacement.toList) =
      spliceFrom t start cs := by
  induction cs generalizing start with
  | nil => simp [keptFrom, weave, spliceFrom]
  | cons c cs ih => simp [keptFrom, weave, spliceFrom, ih]

variable {t : Text} {cs : List Correction} {start : Nat}

/-- The original text is woven from what is kept and what is replaced. -/
theorem weave_replaced (hapart : cs.Pairwise Correction.Before)
    (hstart : ∀ c ∈ cs, start ≤ c.range.location) :
    weave (keptFrom t start cs) (cs.map fun c => (t.slice c.range).toList) =
      t.chars.drop start := by
  induction cs generalizing start with
  | nil => simp [keptFrom, weave]
  | cons c cs ih =>
      obtain ⟨hfirst, hothers⟩ := List.pairwise_cons.mp hapart
      have hlocation := hstart c List.mem_cons_self
      have hstop : c.range.location ≤ c.range.stop := Nat.le_add_right _ _
      have hslice : (t.slice c.range).toList = t.between c.range.location c.range.stop := by
        rw [Text.slice, String.toList_ofList, Text.between, CharRange.stop, Nat.add_sub_cancel_left]
      rw [keptFrom, List.map_cons, weave, ih hothers fun d hd => (hfirst d hd).stop_le, hslice,
        t.drop_eq_between_append hlocation, t.drop_eq_between_append hstop, List.append_assoc]

/-- **What is kept is what is outside.**  The stretches hold the characters outside of
all corrections, each once and in order. -/
theorem flatten_keptFrom (hapart : cs.Pairwise Correction.Before)
    (hinside : ∀ c ∈ cs, c.range.stop ≤ t.charLength)
    (hstart : ∀ c ∈ cs, start ≤ c.range.location) :
    (keptFrom t start cs).flatten = Text.outsideFrom start (t.chars.drop start) cs := by
  induction cs generalizing start with
  | nil =>
      rw [Text.outsideFrom_of_before (by simp)]
      simp [keptFrom]
  | cons c cs ih =>
      obtain ⟨hfirst, hothers⟩ := List.pairwise_cons.mp hapart
      obtain ⟨hstop, hrest⟩ := List.forall_mem_cons.mp hinside
      have hlocation := hstart c List.mem_cons_self
      have hle : c.range.location ≤ c.range.stop := Nat.le_add_right _ _
      have hbefore : start + (t.between start c.range.location).length = c.range.location := by
        rw [t.length_between (Nat.le_trans hle hstop)]
        omega
      have hspan : c.range.location + (t.between c.range.location c.range.stop).length =
          c.range.stop := by
        rw [t.length_between hstop]
        omega
      have hkept : Text.outsideFrom start (t.between start c.range.location) (c :: cs) =
          t.between start c.range.location := by
        refine Text.outsideFrom_of_before fun d hd => ?_
        rcases List.mem_cons.mp hd with rfl | hd
        · exact Nat.le_of_eq hbefore
        · rw [hbefore]
          exact Nat.le_of_lt (hfirst d hd).start_lt
      have hreplaced : Text.outsideFrom c.range.location
          (t.between c.range.location c.range.stop) (c :: cs) = [] :=
        Text.outsideFrom_of_within List.mem_cons_self (Nat.le_refl _) (Nat.le_of_eq hspan)
      rw [keptFrom, List.flatten_cons, ih hothers hrest fun d hd => (hfirst d hd).stop_le,
        t.drop_eq_between_append hlocation, t.drop_eq_between_append hle,
        Text.outsideFrom_append, hkept, hbefore, Text.outsideFrom_append, hreplaced, hspan,
        List.nil_append, Text.outsideFrom_cons_of_behind (Nat.le_refl _)]

/-- **Nothing else changes.**  The characters outside of the corrections made stand in
the corrected text in the same order, in the same stretches: between these the original
text has what is replaced and the corrected one the replacements. -/
theorem ofCorrections_frame (t : Text) (corrections : List Correction) :
    let corrected := (ofCorrections t corrections).value
    (kept t corrected.applied).length = corrected.applied.length + 1 ∧
      (kept t corrected.applied).flatten = t.outside corrected.applied ∧
      weave (kept t corrected.applied)
        (corrected.applied.map fun c => (t.slice c.range).toList) = t.chars ∧
      weave (kept t corrected.applied)
        (corrected.applied.map fun c => c.replacement.toList) = corrected.contents.toList ∧
      (t.outside corrected.applied).Sublist corrected.contents.toList := by
  intro corrected
  have hapart : corrected.applied.Pairwise Correction.Before := applied_apart t corrections
  have hinside := applied_inside t corrections
  have hstart : ∀ c ∈ corrected.applied, 0 ≤ c.range.location := fun _ _ => Nat.zero_le _
  have houtside : (kept t corrected.applied).flatten = t.outside corrected.applied :=
    flatten_keptFrom hapart hinside hstart
  have hcontents : weave (kept t corrected.applied)
      (corrected.applied.map fun c => c.replacement.toList) = corrected.contents.toList := by
    have hsplice : corrected.contents.toList = (spliceAll t corrected.applied).chars := by
      simp only [corrected, ofCorrections_contents, Text.contents, String.toList_ofList]
    rw [kept, weave_replacements, hsplice, spliceAll_eq_take_append hapart hinside hstart
      (Nat.zero_le _), List.take_zero, List.nil_append]
  refine ⟨length_keptFrom t 0 _, houtside, weave_replaced hapart hstart, hcontents, ?_⟩
  rw [← houtside, ← hcontents]
  apply flatten_sublist_weave
  simp [kept]

end CorrectedText

end DeclLint
