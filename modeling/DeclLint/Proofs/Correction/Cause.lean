import DeclLint.Proofs.Correction.Order

/-!
# Why a correction is dropped

A correction is compared with the last accepted one only.  Still what is dropped can be
told from all accepted ones: it reaches outside the text, or one that was considered
sooner and accepted starts where it starts or ends behind that place.  Nothing else
decides, so a correction that was dropped makes no difference to the others, and none of
those inside the text could be added to the accepted ones.

Equal corrections may be proposed twice, and one of them be dropped; so the selection is
followed on numbered corrections (`NumberedSelection`), where no two are the same.

* `Correction.NumberedSelection.cause` — what is dropped was in the way of an accepted one
  or outside;
* `Correction.NumberedSelection.filter` — without some of what is dropped, the others fare
  the same;
* `CorrectedText.mem_dropped_iff`, `CorrectedText.ofCorrections_eraseIdx` — which are
  dropped, and what there is without one of them;
* `CorrectedText.ofCorrections_dropped` — what is dropped, for every text and every list of
  corrections.
-/

namespace DeclLint

namespace Correction

/-- A correction that starts no earlier than another one conflicts with it if it starts at
the same place or before the other one ends. -/
theorem conflicts_eq_true_iff {a b : Correction} (h : a.range.location ≤ b.range.location) :
    conflicts a b = true ↔
      a.range.location = b.range.location ∨ b.range.location < a.range.stop := by
  rw [← Bool.not_eq_false, conflicts_eq_false_iff h]
  constructor
  · intro hnot
    by_contra hapart
    exact hnot ⟨by omega, by omega⟩
  · rintro hmeet ⟨hstart, hstop⟩
    omega

/-- A selection makes the lists that `select` makes. -/
theorem Selection.value_select {t : Text} {last : Option Correction}
    {cs accepted dropped : List Correction} (h : Selection t last cs accepted dropped) :
    (select t last cs).value = (accepted, dropped) := by
  induction h with
  | nil => rfl
  | outside herror _ ih => simp [select, herror, ih]
  | @conflict last c cs accepted dropped bytes hbytes hconflict _ ih =>
      have hsome : (some last).filter (fun l => conflicts l c) = some last :=
        Option.filter_eq_some_iff.mpr ⟨rfl, hconflict⟩
      simp [select, hbytes, hsome, ih]
  | @accept last c cs accepted dropped bytes hbytes hfree _ ih =>
      have hnone : last.filter (fun l => conflicts l c) = none :=
        Option.filter_eq_none_iff.mpr fun l hl => by simp [hfree l hl]
      simp [select, hbytes, hnone, ih]

/-- A selection from numbered corrections, one at a time; `last` was accepted before. -/
inductive NumberedSelection (t : Text) :
    Option Correction → List (Correction × Nat) → List (Correction × Nat) →
      List (Correction × Nat) → Prop
  | nil (last : Option Correction) : NumberedSelection t last [] [] []
  | drop {last : Option Correction} {p : Correction × Nat}
      {ps applied dropped : List (Correction × Nat)}
      (hcause : (∃ e, t.toByteRange p.1.range = .error e) ∨ ∃ l ∈ last, conflicts l p.1 = true)
      (tail : NumberedSelection t last ps applied dropped) :
      NumberedSelection t last (p :: ps) applied (p :: dropped)
  | accept {last : Option Correction} {p : Correction × Nat}
      {ps applied dropped : List (Correction × Nat)} {bytes : ByteRange}
      (hbytes : t.toByteRange p.1.range = .ok bytes)
      (hfree : ∀ l ∈ last, conflicts l p.1 = false)
      (tail : NumberedSelection t (some p.1) ps applied dropped) :
      NumberedSelection t last (p :: ps) (p :: applied) dropped

/-- Numbered corrections can be selected from. -/
theorem exists_numberedSelection (t : Text) (last : Option Correction)
    (ps : List (Correction × Nat)) :
    ∃ applied dropped, NumberedSelection t last ps applied dropped := by
  induction ps generalizing last with
  | nil => exact ⟨[], [], .nil last⟩
  | cons p ps ih =>
      by_cases hcause : (∃ e, t.toByteRange p.1.range = .error e) ∨
          ∃ l ∈ last, conflicts l p.1 = true
      · obtain ⟨applied, dropped, htail⟩ := ih last
        exact ⟨applied, p :: dropped, .drop hcause htail⟩
      · obtain ⟨hinside, hfree⟩ := not_or.mp hcause
        obtain ⟨applied, dropped, htail⟩ := ih (some p.1)
        cases hbytes : t.toByteRange p.1.range with
        | error e => exact absurd ⟨e, hbytes⟩ hinside
        | ok bytes =>
            refine ⟨p :: applied, dropped, .accept hbytes (fun l hl => ?_) htail⟩
            exact Bool.eq_false_iff.mpr fun hconflict => hfree ⟨l, hl, hconflict⟩

namespace NumberedSelection

variable {t : Text} {last : Option Correction} {ps applied dropped : List (Correction × Nat)}

/-- Without the numbers it is a selection. -/
theorem selection (h : NumberedSelection t last ps applied dropped) :
    Selection t last (ps.map Prod.fst) (applied.map Prod.fst) (dropped.map Prod.fst) := by
  induction h with
  | nil last => exact .nil last
  | @drop last p ps applied dropped hcause _ ih =>
      cases hbytes : t.toByteRange p.1.range with
      | error e => exact .outside hbytes ih
      | ok bytes =>
          rcases hcause with ⟨e, herror⟩ | ⟨l, hl, hconflict⟩
          · simp [hbytes] at herror
          · obtain rfl := Option.mem_def.mp hl
            exact .conflict hbytes hconflict ih
  | accept hbytes hfree _ ih => exact .accept hbytes hfree ih

/-- Nothing is lost. -/
theorem perm (h : NumberedSelection t last ps applied dropped) :
    (applied ++ dropped).Perm ps := by
  induction h with
  | nil => exact .refl _
  | drop _ _ ih => exact List.perm_middle.trans (ih.cons _)
  | accept _ _ _ ih => exact ih.cons _

theorem applied_sublist (h : NumberedSelection t last ps applied dropped) :
    applied.Sublist ps := by
  induction h with
  | nil => exact .slnil
  | drop _ _ ih => exact ih.cons _
  | accept _ _ _ ih => exact ih.cons_cons _

theorem dropped_sublist (h : NumberedSelection t last ps applied dropped) :
    dropped.Sublist ps := by
  induction h with
  | nil => exact .slnil
  | drop _ _ ih => exact ih.cons_cons _
  | accept _ _ _ ih => exact ih.cons _

/-- **Causes of a drop.**  What is dropped reaches outside the text, or conflicts with one
that was accepted before it. -/
theorem cause (h : NumberedSelection t last ps applied dropped) (hsorted : ps.Pairwise Sooner) :
    ∀ d ∈ dropped, (∃ e, t.toByteRange d.1.range = .error e) ∨
      (∃ l ∈ last, conflicts l d.1 = true) ∨
        ∃ a ∈ applied, Sooner a d ∧ conflicts a.1 d.1 = true := by
  induction h with
  | nil => simp
  | @drop last p ps applied dropped hcause _ ih =>
      intro d hd
      rcases List.mem_cons.mp hd with rfl | hd
      · exact hcause.imp_right .inl
      · exact ih hsorted.tail d hd
  | @accept last p ps applied dropped bytes _ _ htail ih =>
      intro d hd
      rcases ih hsorted.tail d hd with houtside | ⟨l, hl, hconflict⟩ | ⟨a, ha, hsooner, hconflict⟩
      · exact .inl houtside
      · obtain rfl := Option.mem_some_iff.mp hl
        have hsooner := (List.pairwise_cons.mp hsorted).1 d (htail.dropped_sublist.subset hd)
        exact .inr (.inr ⟨p, List.mem_cons_self, hsooner, hconflict⟩)
      · exact .inr (.inr ⟨a, List.mem_cons_of_mem p ha, hsooner, hconflict⟩)

/-- **What is dropped makes no difference.**  Without some of it the others fare the same. -/
theorem filter (h : NumberedSelection t last ps applied dropped) {keep : Correction × Nat → Bool}
    (hkeep : ∀ a ∈ applied, keep a = true) :
    NumberedSelection t last (ps.filter keep) applied (dropped.filter keep) := by
  induction h with
  | nil last => exact .nil last
  | @drop last p ps applied dropped hcause _ ih =>
      by_cases hp : keep p = true
      · rw [List.filter_cons_of_pos hp, List.filter_cons_of_pos hp]
        exact .drop hcause (ih hkeep)
      · rw [List.filter_cons_of_neg hp, List.filter_cons_of_neg hp]
        exact ih hkeep
  | @accept last p ps applied dropped bytes hbytes hfree _ ih =>
      obtain ⟨hp, hothers⟩ := List.forall_mem_cons.mp hkeep
      rw [List.filter_cons_of_pos hp]
      exact .accept hbytes hfree (ih hothers)

end NumberedSelection

end Correction

namespace CorrectedText

open Correction

/-- The corrections made and dropped, numbered by the places where they were proposed. -/
theorem exists_numbered (t : Text) (corrections : List Correction) :
    ∃ applied dropped, NumberedSelection t none (considered corrections) applied dropped ∧
      applied.map Prod.fst = (ofCorrections t corrections).value.applied ∧
      dropped.map Prod.fst = (ofCorrections t corrections).value.dropped := by
  obtain ⟨applied, dropped, h⟩ := exists_numberedSelection t none (considered corrections)
  have hvalue := h.selection.value_select
  rw [map_fst_considered] at hvalue
  refine ⟨applied, dropped, h, ?_, ?_⟩
  · exact (congrArg Prod.fst hvalue).symm
  · exact (congrArg Prod.snd hvalue).symm

section Numbered

variable {t : Text} {corrections : List Correction} {applied dropped : List (Correction × Nat)}
  {a b d : Correction × Nat}

/-- Of numbered corrections that were made, one that was considered sooner than another
starts and ends before it. -/
theorem before_of_sooner (h : NumberedSelection t none (considered corrections) applied dropped)
    (ha : a ∈ applied) (hb : b ∈ applied) (hsooner : Sooner a b) : a.1.Before b.1 := by
  have hconsidered := pairwise_considered corrections
  have hstarts : ((considered corrections).map Prod.fst).Pairwise fun a b =>
      a.range.location ≤ b.range.location :=
    List.pairwise_map.mpr (hconsidered.imp Sooner.start_le)
  have hapart : applied.Pairwise fun a b => a.1.Before b.1 :=
    List.pairwise_map.mp (h.selection.apart hstarts (by simp)).1
  have hsymmetric : Std.Symm fun a b : Correction × Nat =>
      (Sooner a b ∧ a.1.Before b.1) ∨ (Sooner b a ∧ b.1.Before a.1) := ⟨fun _ _ => Or.symm⟩
  have hpairs : applied.Pairwise fun a b =>
      (Sooner a b ∧ a.1.Before b.1) ∨ (Sooner b a ∧ b.1.Before a.1) :=
    ((hconsidered.sublist h.applied_sublist).and hapart).imp Or.inl
  have hne : a ≠ b := by
    rintro rfl
    exact hsooner.asymm hsooner
  rcases hpairs.forall ha hb hne with ⟨-, hbefore⟩ | ⟨hlater, -⟩
  · exact hbefore
  · exact absurd hlater hsooner.asymm

/-- What is dropped reaches outside the text, or one that was made conflicts with it. -/
theorem exists_conflict (h : NumberedSelection t none (considered corrections) applied dropped)
    (hd : d ∈ dropped) :
    ¬ t.Encloses d.1.range ∨ ∃ a ∈ applied, Sooner a d ∧ conflicts a.1 d.1 = true := by
  rcases h.cause (pairwise_considered corrections) d hd with houtside | ⟨l, hl, -⟩ | hconflict
  · exact .inl (Text.exists_toByteRange_error_iff.mp houtside)
  · simp at hl
  · exact .inr hconflict

/-- What was made lies inside the text, behind whatever was made sooner. -/
theorem not_dropped_of_mem_applied
    (h : NumberedSelection t none (considered corrections) applied dropped) (hd : d ∈ applied) :
    t.Encloses d.1.range ∧ ∀ a ∈ applied, Sooner a d →
      a.1.range.location ≠ d.1.range.location ∧ a.1.range.stop ≤ d.1.range.location := by
  refine ⟨Text.exists_toByteRange_iff.mp (h.selection.inside d.1 (List.mem_map_of_mem hd)), ?_⟩
  intro a ha hsooner
  have hbefore := before_of_sooner h ha hd hsooner
  exact ⟨Nat.ne_of_lt hbefore.start_lt, hbefore.stop_le⟩

/-- **Which are dropped.** -/
theorem mem_dropped_iff (h : NumberedSelection t none (considered corrections) applied dropped)
    (hd : d ∈ corrections.zipIdx) :
    d ∈ dropped ↔ ¬ t.Encloses d.1.range ∨ ∃ a ∈ applied, Sooner a d ∧
      (a.1.range.location = d.1.range.location ∨ d.1.range.location < a.1.range.stop) := by
  constructor
  · intro hdropped
    refine (exists_conflict h hdropped).imp_right ?_
    rintro ⟨a, ha, hsooner, hconflict⟩
    exact ⟨a, ha, hsooner, (conflicts_eq_true_iff hsooner.start_le).mp hconflict⟩
  · intro hwhy
    have hperm := h.perm.trans (considered_perm corrections)
    rcases List.mem_append.mp (hperm.mem_iff.mpr hd) with hmade | hdropped
    · obtain ⟨hinside, hbehind⟩ := not_dropped_of_mem_applied h hmade
      rcases hwhy with houtside | ⟨a, ha, hsooner, hmeet⟩
      · exact absurd hinside houtside
      · obtain ⟨hne, hstop⟩ := hbehind a ha hsooner
        exact absurd hmeet (not_or.mpr ⟨hne, Nat.not_lt.mpr hstop⟩)
    · exact hdropped

/-- **Without one that is dropped** the others fare the same. -/
theorem ofCorrections_eraseIdx
    (h : NumberedSelection t none (considered corrections) applied dropped) (hd : d ∈ dropped) :
    (ofCorrections t (corrections.eraseIdx d.2)).value =
      ⟨(spliceAll t (applied.map Prod.fst)).contents, applied.map Prod.fst,
        (dropped.filter fun p => p.2 != d.2).map Prod.fst⟩ := by
  have hnumbers : (applied ++ dropped).Pairwise fun a b => a.2 ≠ b.2 :=
    (h.perm.trans (considered_perm corrections)).symm.pairwise
      ((pairwise_snd_lt_zipIdx corrections).imp Nat.ne_of_lt) Ne.symm
  have hkeep : ∀ a ∈ applied, (a.2 != d.2) = true := fun a ha =>
    bne_iff_ne.mpr ((List.pairwise_append.mp hnumbers).2.2 a ha d hd)
  have hvalue := (h.filter hkeep).selection.value_select
  rw [← mergeSort_eraseIdx] at hvalue
  unfold ofCorrections
  rw [Logged.value_bind, hvalue]
  rfl

end Numbered

/-- No correction that conflicts with one of those made can be added to them. -/
theorem not_apart_of_conflicts {a d : Correction} {applied more : List Correction}
    (ha : a ∈ applied) (hstart : a.range.location ≤ d.range.location)
    (hconflict : conflicts a d = true) (hmore : more.Perm (d :: applied)) :
    ¬ more.Pairwise Before := by
  intro hapart
  have hpairs : more.Pairwise fun a b => a.Before b ∨ b.Before a := hapart.imp Or.inl
  rcases (List.pairwise_cons.mp (hmore.pairwise hpairs Or.symm)).1 a ha with hbefore | hbefore
  · exact absurd hbefore.start_lt (Nat.not_lt.mpr hstart)
  · rw [(conflicts_eq_false_iff hstart).mpr hbefore] at hconflict
    exact Bool.false_ne_true hconflict

/-- **What is dropped, and why.**  The corrections made and those dropped are all that were
proposed, each numbered one in one of the two lists, and both lists are in the order in
which corrections are considered.  One is dropped exactly if it reaches outside the text, or
if another one that was considered sooner and made starts where it starts or ends behind
that place.  So the others fare the same without it; and if it lies inside the text, it
conflicts with one that was made and cannot be added to those. -/
theorem ofCorrections_dropped (t : Text) (corrections : List Correction) :
    let corrected := (ofCorrections t corrections).value
    (corrected.applied ++ corrected.dropped).Perm corrections ∧
      ∃ applied dropped : List (Correction × Nat),
        applied.map Prod.fst = corrected.applied ∧
        dropped.map Prod.fst = corrected.dropped ∧
        (applied ++ dropped).Perm corrections.zipIdx ∧
        applied.Pairwise Sooner ∧ dropped.Pairwise Sooner ∧
        (∀ d ∈ corrections.zipIdx, d ∈ dropped ↔
          ¬ t.Encloses d.1.range ∨
            ∃ a ∈ applied, Sooner a d ∧
              (a.1.range.location = d.1.range.location ∨
                d.1.range.location < a.1.range.stop)) ∧
        (∀ d ∈ dropped, (ofCorrections t (corrections.eraseIdx d.2)).value =
          ⟨corrected.contents, corrected.applied,
            (dropped.filter fun p => p.2 != d.2).map Prod.fst⟩) ∧
        (∀ d ∈ dropped, t.Encloses d.1.range →
          (∃ a ∈ corrected.applied, conflicts a d.1 = true) ∧
            ∀ more : List Correction,
              more.Perm (d.1 :: corrected.applied) → ¬ more.Pairwise Before) := by
  intro corrected
  obtain ⟨applied, dropped, h, happlied, hdropped⟩ := exists_numbered t corrections
  have hconsidered := pairwise_considered corrections
  have hperm := h.perm.trans (considered_perm corrections)
  have hlists : (corrected.applied ++ corrected.dropped).Perm corrections := by
    have hnumbers := hperm.map Prod.fst
    rwa [List.map_append, happlied, hdropped, List.zipIdx_map_fst] at hnumbers
  refine ⟨hlists, applied, dropped, happlied, hdropped, hperm,
    hconsidered.sublist h.applied_sublist, hconsidered.sublist h.dropped_sublist,
    fun d hd => mem_dropped_iff h hd, ?_, ?_⟩
  · intro d hd
    rw [ofCorrections_eraseIdx h hd, happlied]
    rfl
  · intro d hd hinside
    rcases exists_conflict h hd with houtside | ⟨a, ha, hsooner, hconflict⟩
    · exact absurd hinside houtside
    · have hmade : a.1 ∈ corrected.applied := happlied ▸ List.mem_map_of_mem ha
      exact ⟨⟨a.1, hmade, hconflict⟩, fun more hmore =>
        not_apart_of_conflicts hmade hsooner.start_le hconflict hmore⟩

end CorrectedText

end DeclLint
