import DeclLint.Proofs.Correction.Splice
import Mathlib.Data.List.Pairwise

/-!
# The order of corrections

Corrections are considered by where they start, then by their rule, then in the order in
which they were proposed.  The last part is what a stable sort adds: corrections of one
start and one rule keep their order, and by that a sorted list is determined.  So the
order in which the corrections of different rules are pooled does not matter.

To speak of the place at which a correction was proposed, corrections are numbered
(`List.zipIdx`); `Sooner` is the order in which numbered ones are considered.

* `Correction.filter_mergeSort_hasKey` — sorting keeps corrections of one start and one
  rule in order;
* `Correction.eq_of_filter_hasKey_eq` — sorted corrections are determined by these;
* `Correction.mergeSort_eraseIdx` — sorting without one correction leaves the others in
  their order;
* `CorrectedText.ofCorrections_reordered` — neither pooling in another order nor applying
  again what was applied changes a corrected text.
-/

namespace DeclLint

namespace Correction

/-- Whether a correction has a start and is of the rule at a place. -/
def hasKey (start index : Nat) (c : Correction) : Bool :=
  c.range.location == start && c.ruleIndex == index

theorem hasKey_eq_true_iff {start index : Nat} {c : Correction} :
    c.hasKey start index = true ↔ c.range.location = start ∧ c.ruleIndex = index := by
  simp [hasKey]

theorem hasKey_self (c : Correction) : c.hasKey c.range.location c.ruleIndex = true :=
  hasKey_eq_true_iff.mpr ⟨rfl, rfl⟩

/-- Corrections of one start and one rule are considered in any order. -/
theorem precedes_of_hasKey {start index : Nat} {a b : Correction}
    (ha : a.hasKey start index = true) (hb : b.hasKey start index = true) :
    a.precedes b = true := by
  obtain ⟨hstart, hindex⟩ := hasKey_eq_true_iff.mp ha
  obtain ⟨hstart', hindex'⟩ := hasKey_eq_true_iff.mp hb
  simp [precedes, hstart, hstart', hindex, hindex']

/-- Corrections each of which is considered no later than the other have one start and
one rule. -/
theorem hasKey_of_precedes {a b : Correction} (hab : a.precedes b = true)
    (hba : b.precedes a = true) : b.hasKey a.range.location a.ruleIndex = true := by
  simp only [precedes, Bool.or_eq_true, Bool.and_eq_true, decide_eq_true_eq,
    beq_iff_eq] at hab hba
  exact hasKey_eq_true_iff.mpr ⟨by omega, by omega⟩

/-- **Sorting keeps ties.**  Corrections of one start and one rule stay in order. -/
theorem filter_mergeSort_hasKey (cs : List Correction) (start index : Nat) :
    (cs.mergeSort precedes).filter (hasKey start index) = cs.filter (hasKey start index) := by
  have htied : (cs.filter (hasKey start index)).Pairwise fun a b => a.precedes b = true :=
    List.pairwise_of_forall_mem_list fun a ha b hb =>
      precedes_of_hasKey (List.mem_filter.mp ha).2 (List.mem_filter.mp hb).2
  have hsublist : (cs.filter (hasKey start index)).Sublist (cs.mergeSort precedes) :=
    List.sublist_mergeSort precedes_trans precedes_total htied List.filter_sublist
  have hfilter := hsublist.filter (hasKey start index)
  rw [List.filter_filter, funext fun c => Bool.and_self (hasKey start index c)] at hfilter
  have hlength := ((List.mergeSort_perm cs precedes).filter (hasKey start index)).length_eq
  exact (hfilter.eq_of_length hlength.symm).symm

/-- **A sorted list is determined by its ties.** -/
theorem eq_of_filter_hasKey_eq {cs ds : List Correction}
    (hcs : cs.Pairwise fun a b => a.precedes b = true)
    (hds : ds.Pairwise fun a b => a.precedes b = true)
    (h : ∀ start index, cs.filter (hasKey start index) = ds.filter (hasKey start index)) :
    cs = ds := by
  induction cs generalizing ds with
  | nil =>
      cases ds with
      | nil => rfl
      | cons d ds =>
          have hnone := h d.range.location d.ruleIndex
          rw [List.filter_cons_of_pos d.hasKey_self] at hnone
          simp at hnone
  | cons c cs ih =>
      obtain ⟨hfirst, hothers⟩ := List.pairwise_cons.mp hcs
      have hmem : c ∈ ds := by
        have hkey := h c.range.location c.ruleIndex
        rw [List.filter_cons_of_pos c.hasKey_self] at hkey
        exact (List.mem_filter.mp (hkey ▸ List.mem_cons_self)).1
      cases ds with
      | nil => simp at hmem
      | cons d ds =>
          obtain ⟨hfirst', hothers'⟩ := List.pairwise_cons.mp hds
          have hmem' : d ∈ c :: cs := by
            have hkey := h d.range.location d.ruleIndex
            rw [List.filter_cons_of_pos d.hasKey_self] at hkey
            exact (List.mem_filter.mp (hkey ▸ List.mem_cons_self)).1
          -- Each of the two first ones is somewhere in the other list.
          have hkey : d.hasKey c.range.location c.ruleIndex = true := by
            rcases List.mem_cons.mp hmem with rfl | hc
            · exact hasKey_self _
            · rcases List.mem_cons.mp hmem' with rfl | hd
              · exact hasKey_self _
              · exact hasKey_of_precedes (hfirst d hd) (hfirst' c hc)
          obtain rfl : c = d := by
            have hheads := h c.range.location c.ruleIndex
            rw [List.filter_cons_of_pos c.hasKey_self, List.filter_cons_of_pos hkey] at hheads
            exact (List.cons.inj hheads).1
          congr 1
          refine ih hothers hothers' fun start index => ?_
          have hkeys := h start index
          by_cases hc : c.hasKey start index = true
          · rw [List.filter_cons_of_pos hc, List.filter_cons_of_pos hc] at hkeys
            exact (List.cons.inj hkeys).2
          · rwa [List.filter_cons_of_neg hc, List.filter_cons_of_neg hc] at hkeys

/-- Two lists hold the same corrections, and those of one start and one rule in the same
order. -/
structure Reordered (cs ds : List Correction) : Prop where
  perm : cs.Perm ds
  ties : ∀ start index, cs.filter (hasKey start index) = ds.filter (hasKey start index)

/-- Reordered corrections are considered in one order. -/
theorem Reordered.mergeSort_eq {cs ds : List Correction} (h : Reordered cs ds) :
    cs.mergeSort precedes = ds.mergeSort precedes := by
  refine eq_of_filter_hasKey_eq (pairwise_precedes_mergeSort cs) (pairwise_precedes_mergeSort ds)
    fun start index => ?_
  rw [filter_mergeSort_hasKey, filter_mergeSort_hasKey, h.ties start index]

/-- Of corrections that stand apart, no two have one start. -/
theorem eq_of_start_eq {cs : List Correction} (hapart : cs.Pairwise Before) {a b : Correction}
    (ha : a ∈ cs) (hb : b ∈ cs) (h : a.range.location = b.range.location) : a = b := by
  have hsymmetric : Std.Symm fun a b : Correction => a.Before b ∨ b.Before a :=
    ⟨fun _ _ => Or.symm⟩
  have hpairs : cs.Pairwise fun a b => a.Before b ∨ b.Before a := hapart.imp Or.inl
  by_contra hne
  rcases hpairs.forall ha hb hne with hbefore | hbefore
  · exact Nat.ne_of_lt hbefore.start_lt h
  · exact Nat.ne_of_gt hbefore.start_lt h

/-- Corrections that stand apart are considered in the order of the text, however they are
pooled. -/
theorem mergeSort_of_perm {cs ds : List Correction} (hapart : cs.Pairwise Before)
    (hperm : ds.Perm cs) : ds.mergeSort precedes = cs := by
  have hsorted : cs.Pairwise fun a b => a.precedes b = true :=
    hapart.imp fun h => by simp [precedes, h.start_lt]
  refine List.Perm.eq_of_pairwise ?_ (pairwise_precedes_mergeSort ds) hsorted
    ((List.mergeSort_perm ds precedes).trans hperm)
  intro a b ha hb hab hba
  have hmem : a ∈ cs := hperm.mem_iff.mp (List.mem_mergeSort.mp ha)
  exact eq_of_start_eq hapart hmem hb
    (Nat.le_antisymm (precedes_start_le hab) (precedes_start_le hba))

/-- A correction that is numbered by the place where it was proposed is considered before
another one: it starts first, or is of an earlier rule, or was proposed first. -/
def Sooner (a b : Correction × Nat) : Prop :=
  a.1.range.location < b.1.range.location ∨
    a.1.range.location = b.1.range.location ∧
      (a.1.ruleIndex < b.1.ruleIndex ∨ a.1.ruleIndex = b.1.ruleIndex ∧ a.2 < b.2)

theorem Sooner.asymm {a b : Correction × Nat} (hab : Sooner a b) : ¬ Sooner b a := by
  unfold Sooner at *
  omega

theorem Sooner.start_le {a b : Correction × Nat} (h : Sooner a b) :
    a.1.range.location ≤ b.1.range.location := by
  unfold Sooner at h
  omega

theorem Sooner.precedes {a b : Correction × Nat} (h : Sooner a b) :
    a.1.precedes b.1 = true := by
  simp only [Correction.precedes, Bool.or_eq_true, Bool.and_eq_true, decide_eq_true_eq,
    beq_iff_eq]
  unfold Sooner at h
  omega

/-- Numbered corrections of one start and one rule are considered by their numbers. -/
theorem sooner_of_hasKey {start index : Nat} {a b : Correction × Nat}
    (ha : a.1.hasKey start index = true) (hb : b.1.hasKey start index = true)
    (h : a.2 < b.2) : Sooner a b := by
  obtain ⟨hstart, hindex⟩ := hasKey_eq_true_iff.mp ha
  obtain ⟨hstart', hindex'⟩ := hasKey_eq_true_iff.mp hb
  unfold Sooner
  omega

/-- The proposed corrections in the order in which they are considered, numbered by the
places where they were proposed. -/
def considered (cs : List Correction) : List (Correction × Nat) :=
  cs.zipIdx.mergeSort (List.zipIdxLE precedes)

theorem map_fst_considered (cs : List Correction) :
    (considered cs).map Prod.fst = cs.mergeSort precedes :=
  List.mergeSort_zipIdx

theorem considered_perm (cs : List Correction) : (considered cs).Perm cs.zipIdx :=
  List.mergeSort_perm _ _

/-- What is sorted first by the order of corrections and then by number comes sooner. -/
theorem sooner_of_zipIdxLE {a b : Correction × Nat} (h : List.zipIdxLE precedes a b = true)
    (hne : a.2 ≠ b.2) : Sooner a b := by
  unfold List.zipIdxLE at h
  unfold Sooner
  by_cases hab : a.1.precedes b.1 = true
  · by_cases hba : b.1.precedes a.1 = true
    · simp only [hab, hba, if_true, decide_eq_true_eq] at h
      simp only [precedes, Bool.or_eq_true, Bool.and_eq_true, decide_eq_true_eq,
        beq_iff_eq] at hab hba
      omega
    · simp only [precedes, Bool.or_eq_true, Bool.and_eq_true, decide_eq_true_eq,
        beq_iff_eq] at hab hba
      omega
  · simp [hab] at h

/-- Numbers go up. -/
theorem pairwise_snd_lt_zipIdx (cs : List Correction) :
    cs.zipIdx.Pairwise fun a b => a.2 < b.2 := by
  rw [← List.pairwise_map, List.zipIdx_map_snd]
  exact List.pairwise_lt_range'

theorem pairwise_considered (cs : List Correction) : (considered cs).Pairwise Sooner := by
  have hsorted : (considered cs).Pairwise fun a b => List.zipIdxLE precedes a b = true :=
    List.pairwise_mergeSort (List.zipIdxLE_trans precedes_trans)
      (List.zipIdxLE_total precedes_total) _
  have hnumbers : (considered cs).Pairwise fun a b => a.2 ≠ b.2 :=
    (considered_perm cs).symm.pairwise ((pairwise_snd_lt_zipIdx cs).imp Nat.ne_of_lt) Ne.symm
  exact (hsorted.and hnumbers).imp fun h => sooner_of_zipIdxLE h.1 h.2

/-- Numbered corrections are in one order only. -/
theorem eq_of_perm_of_sooner {xs ys : List (Correction × Nat)} (hxs : xs.Pairwise Sooner)
    (hys : ys.Pairwise Sooner) (hperm : xs.Perm ys) : xs = ys :=
  List.Perm.eq_of_pairwise (fun _ _ _ _ hab hba => absurd hba hab.asymm) hxs hys hperm

/-- Numbered corrections of one start and one rule are considered in the order of their
numbers. -/
theorem filter_considered (cs : List Correction) (start index : Nat) :
    (considered cs).filter (fun p => p.1.hasKey start index) =
      cs.zipIdx.filter fun p => p.1.hasKey start index := by
  refine eq_of_perm_of_sooner ((pairwise_considered cs).filter _) ?_
    ((considered_perm cs).filter _)
  refine ((pairwise_snd_lt_zipIdx cs).filter _).imp_of_mem ?_
  intro a b ha hb hlt
  exact sooner_of_hasKey (List.mem_filter.mp ha).2 (List.mem_filter.mp hb).2 hlt

/-- A list without the entry of one number. -/
theorem map_fst_filter_zipIdx (cs : List Correction) (start number : Nat) :
    ((cs.zipIdx start).filter fun p => p.2 != start + number).map Prod.fst =
      cs.eraseIdx number := by
  induction cs generalizing start number with
  | nil => rfl
  | cons c cs ih =>
      rw [List.zipIdx_cons]
      cases number with
      | zero =>
          have hothers : ∀ p ∈ cs.zipIdx (start + 1), (p.2 != start + 0) = true := by
            intro p hp
            have hle := List.le_snd_of_mem_zipIdx hp
            simp only [bne_iff_ne]
            omega
          rw [List.filter_cons_of_neg (by simp), List.filter_eq_self.mpr hothers,
            List.zipIdx_map_fst, List.eraseIdx_cons_zero]
      | succ number =>
          rw [List.filter_cons_of_pos (by simp), List.map_cons, List.eraseIdx_cons_succ,
            ← ih (start + 1) number, Nat.add_right_comm, Nat.add_assoc]

/-- **Without one correction the others stay in their order.** -/
theorem mergeSort_eraseIdx (cs : List Correction) (number : Nat) :
    (cs.eraseIdx number).mergeSort precedes =
      ((considered cs).filter fun p => p.2 != number).map Prod.fst := by
  refine eq_of_filter_hasKey_eq (pairwise_precedes_mergeSort _) ?_ fun start index => ?_
  · exact List.pairwise_map.mpr (((pairwise_considered cs).filter _).imp Sooner.precedes)
  · have hcomm : ∀ ps : List (Correction × Nat),
        (ps.filter fun p => p.2 != number).filter (fun p => p.1.hasKey start index) =
          (ps.filter fun p => p.1.hasKey start index).filter fun p => p.2 != number := by
      intro ps
      simp only [List.filter_filter, Bool.and_comm]
    have hnumber := map_fst_filter_zipIdx cs 0 number
    rw [Nat.zero_add] at hnumber
    rw [filter_mergeSort_hasKey, ← hnumber, List.filter_map, List.filter_map]
    congr 1
    exact (hcomm _).trans ((filter_considered cs start index) ▸ (hcomm _).symm)

end Correction

namespace CorrectedText

/-- Only the order matters in which corrections are considered. -/
theorem ofCorrections_congr {cs ds : List Correction}
    (h : cs.mergeSort Correction.precedes = ds.mergeSort Correction.precedes) (t : Text) :
    ofCorrections t cs = ofCorrections t ds := by
  unfold ofCorrections
  rw [h]

/-- **Pooling and replaying.**  The order in which corrections are pooled does not matter,
as long as those of one start and one rule keep theirs: text, corrections made, corrections
dropped and everything noted are the same.  And the corrections that were made are all made
again, whatever order they are put in, and give the same text. -/
theorem ofCorrections_reordered (t : Text) {cs ds : List Correction}
    (h : Correction.Reordered cs ds) :
    ofCorrections t cs = ofCorrections t ds ∧
      ∀ again, again.Perm (ofCorrections t cs).value.applied →
        (ofCorrections t again).value =
          ⟨(ofCorrections t cs).value.contents, (ofCorrections t cs).value.applied, []⟩ := by
  refine ⟨ofCorrections_congr h.mergeSort_eq t, fun again hagain => ?_⟩
  have hapart := applied_apart t cs
  have hinside := (ofCorrections_selection t cs).inside
  have hsorted := (Correction.mergeSort_of_perm hapart hagain).trans
    (Correction.mergeSort_of_perm hapart (.refl _)).symm
  rw [ofCorrections_congr hsorted, ofCorrections_of_apart hinside hapart,
    ← ofCorrections_contents]

/-- Two insertions of one rule at one place, pooled before and behind a replacement of
another rule that surrounds them. -/
theorem ofCorrections_reordered_pooled :
    Correction.Reordered
        [⟨"a", 0, ⟨1, 0⟩, "-", ⟨none, 1, 2, 1⟩⟩, ⟨"a", 0, ⟨1, 0⟩, "+", ⟨none, 1, 2, 1⟩⟩,
          ⟨"b", 1, ⟨0, 2⟩, "", ⟨none, 1, 1, 0⟩⟩]
        [⟨"b", 1, ⟨0, 2⟩, "", ⟨none, 1, 1, 0⟩⟩, ⟨"a", 0, ⟨1, 0⟩, "-", ⟨none, 1, 2, 1⟩⟩,
          ⟨"a", 0, ⟨1, 0⟩, "+", ⟨none, 1, 2, 1⟩⟩] ∧
      ofCorrections (.ofString "é🦀")
          [⟨"a", 0, ⟨1, 0⟩, "-", ⟨none, 1, 2, 1⟩⟩, ⟨"a", 0, ⟨1, 0⟩, "+", ⟨none, 1, 2, 1⟩⟩,
            ⟨"b", 1, ⟨0, 2⟩, "", ⟨none, 1, 1, 0⟩⟩] =
        ofCorrections (.ofString "é🦀")
          [⟨"b", 1, ⟨0, 2⟩, "", ⟨none, 1, 1, 0⟩⟩, ⟨"a", 0, ⟨1, 0⟩, "-", ⟨none, 1, 2, 1⟩⟩,
            ⟨"a", 0, ⟨1, 0⟩, "+", ⟨none, 1, 2, 1⟩⟩] := by
  have h : Correction.Reordered
      [⟨"a", 0, ⟨1, 0⟩, "-", ⟨none, 1, 2, 1⟩⟩, ⟨"a", 0, ⟨1, 0⟩, "+", ⟨none, 1, 2, 1⟩⟩,
        ⟨"b", 1, ⟨0, 2⟩, "", ⟨none, 1, 1, 0⟩⟩]
      [⟨"b", 1, ⟨0, 2⟩, "", ⟨none, 1, 1, 0⟩⟩, ⟨"a", 0, ⟨1, 0⟩, "-", ⟨none, 1, 2, 1⟩⟩,
        ⟨"a", 0, ⟨1, 0⟩, "+", ⟨none, 1, 2, 1⟩⟩] := by
    refine ⟨by decide, fun start index => ?_⟩
    cases index <;> simp [Correction.hasKey, List.filter_cons]
  exact ⟨h, (ofCorrections_reordered (.ofString "é🦀") h).1⟩

end CorrectedText

end DeclLint
