import DeclLint.CorrectedText
import DeclLint.Proofs.Text.Span

/-!
# Accepted corrections stand apart

Corrections are considered in the order of their starts, and each is compared
with the last accepted one only.  That is enough to keep all of them apart: what
starts behind the end of the last accepted correction starts behind the end of
every one before it.

The invariant is `Before`, which is transitive; `Selection` records one selection
step at a time, so that every fact about a whole selection is an induction over
its steps.

* `Correction.conflicts_eq_false_iff` — for a correction that starts no earlier,
  not to conflict is to come after;
* `Correction.Selection.apart` — any two accepted corrections stand apart;
* `Correction.Selection.cause` — a correction is dropped only if it points
  outside the text or conflicts with an accepted one;
* `Correction.select_of_apart` — what stands apart already is all accepted.
-/

namespace DeclLint

namespace Correction

/-- One correction starts before another and replaces nothing from the start
of the other on. -/
structure Before (a b : Correction) : Prop where
  start_lt : a.range.location < b.range.location
  stop_le : a.range.stop ≤ b.range.location

theorem Before.trans {a b c : Correction} (hab : a.Before b) (hbc : b.Before c) :
    a.Before c :=
  ⟨Nat.lt_trans hab.start_lt hbc.start_lt,
    Nat.le_trans hab.stop_le (Nat.le_of_lt hbc.start_lt)⟩

/-- For a correction that starts no earlier, not to conflict is to come after. -/
theorem conflicts_eq_false_iff {a b : Correction}
    (h : a.range.location ≤ b.range.location) : conflicts a b = false ↔ a.Before b := by
  constructor
  · intro hfree
    unfold conflicts CharRange.intersects CharRange.stop at hfree
    refine ⟨?_, ?_⟩
    · grind
    · unfold CharRange.stop
      grind
  · rintro ⟨hstart, hstop⟩
    unfold CharRange.stop at hstop
    unfold conflicts CharRange.intersects CharRange.stop
    grind

/-- The order in which corrections are considered is transitive. -/
theorem precedes_trans (a b c : Correction) (hab : a.precedes b = true)
    (hbc : b.precedes c = true) : a.precedes c = true := by
  simp only [precedes, Bool.or_eq_true, Bool.and_eq_true, decide_eq_true_eq,
    beq_iff_eq] at *
  omega

/-- Of two corrections one is considered no later than the other. -/
theorem precedes_total (a b : Correction) : (a.precedes b || b.precedes a) = true := by
  simp only [precedes, Bool.or_eq_true, Bool.and_eq_true, decide_eq_true_eq,
    beq_iff_eq]
  omega

theorem precedes_start_le {a b : Correction} (h : a.precedes b = true) :
    a.range.location ≤ b.range.location := by
  simp only [precedes, Bool.or_eq_true, Bool.and_eq_true, decide_eq_true_eq,
    beq_iff_eq] at h
  omega

/-- Sorted corrections are considered in the order of their starts. -/
theorem pairwise_precedes_mergeSort (cs : List Correction) :
    (cs.mergeSort precedes).Pairwise (fun a b => a.precedes b = true) :=
  List.pairwise_mergeSort precedes_trans precedes_total cs

/-- A selection, one correction at a time: `Selection t last cs accepted dropped`
says that `cs`, considered after `last` was accepted, split into the other two.
It is a thin wrapper around `select`. -/
inductive Selection (t : Text) :
    Option Correction → List Correction → List Correction → List Correction → Prop
  | nil (last : Option Correction) : Selection t last [] [] []
  | outside {last : Option Correction} {c : Correction}
      {cs accepted dropped : List Correction} {e : CoordinateError}
      (herror : t.toByteRange c.range = .error e)
      (tail : Selection t last cs accepted dropped) :
      Selection t last (c :: cs) accepted (c :: dropped)
  | conflict {last c : Correction} {cs accepted dropped : List Correction}
      {bytes : ByteRange}
      (hbytes : t.toByteRange c.range = .ok bytes)
      (hconflict : conflicts last c = true)
      (tail : Selection t (some last) cs accepted dropped) :
      Selection t (some last) (c :: cs) accepted (c :: dropped)
  | accept {last : Option Correction} {c : Correction}
      {cs accepted dropped : List Correction} {bytes : ByteRange}
      (hbytes : t.toByteRange c.range = .ok bytes)
      (hfree : ∀ l ∈ last, conflicts l c = false)
      (tail : Selection t (some c) cs accepted dropped) :
      Selection t last (c :: cs) (c :: accepted) dropped

/-- `select` makes a selection. -/
theorem selection_select (t : Text) (last : Option Correction) (cs : List Correction) :
    Selection t last cs (select t last cs).value.1 (select t last cs).value.2 := by
  induction cs generalizing last with
  | nil => exact .nil last
  | cons c cs ih =>
      unfold select
      cases hbytes : t.toByteRange c.range with
      | error e => exact .outside hbytes (ih last)
      | ok bytes =>
          cases hlast : last.filter fun l => conflicts l c with
          | some l =>
              obtain ⟨rfl, hconflict⟩ := Option.filter_eq_some_iff.mp hlast
              exact .conflict hbytes hconflict (ih (some l))
          | none =>
              refine .accept hbytes ?_ (ih (some c))
              intro l hl
              simpa using Option.filter_eq_none_iff.mp hlast l hl

namespace Selection

variable {t : Text} {last : Option Correction} {cs accepted dropped : List Correction}

/-- What is accepted was proposed, in the same order. -/
theorem sublist (h : Selection t last cs accepted dropped) : accepted.Sublist cs := by
  induction h with
  | nil => exact .slnil
  | outside _ _ ih => exact ih.cons _
  | conflict _ _ _ ih => exact ih.cons _
  | accept _ _ _ ih => exact ih.cons_cons _

/-- What is accepted maps onto the text. -/
theorem inside (h : Selection t last cs accepted dropped) :
    ∀ a ∈ accepted, ∃ bytes, t.toByteRange a.range = .ok bytes := by
  induction h with
  | nil => simp
  | outside _ _ ih => exact ih
  | conflict _ _ _ ih => exact ih
  | accept hbytes _ _ ih =>
      intro a ha
      rcases List.mem_cons.mp ha with rfl | ha
      · exact ⟨_, hbytes⟩
      · exact ih a ha

/-- **One comparison is enough.**  If corrections come in the order of their
starts, those accepted stand apart from each other and from the one accepted
before them. -/
theorem apart (h : Selection t last cs accepted dropped)
    (hsorted : cs.Pairwise fun a b => a.range.location ≤ b.range.location)
    (hlast : ∀ l ∈ last, ∀ c ∈ cs, l.range.location ≤ c.range.location) :
    accepted.Pairwise Before ∧ ∀ l ∈ last, ∀ a ∈ accepted, l.Before a := by
  induction h with
  | nil => simp
  | outside _ _ ih =>
      exact ih hsorted.tail fun l hl c hc => hlast l hl c (List.mem_cons_of_mem _ hc)
  | conflict _ _ _ ih =>
      exact ih hsorted.tail fun l hl c hc => hlast l hl c (List.mem_cons_of_mem _ hc)
  | @accept last c cs accepted dropped bytes hbytes hfree tail ih =>
      obtain ⟨hfirst, hrest⟩ := List.pairwise_cons.mp hsorted
      obtain ⟨hapart, hbehind⟩ := ih hrest (by rintro l ⟨rfl⟩; exact hfirst)
      have hc : ∀ a ∈ accepted, c.Before a := hbehind c rfl
      refine ⟨List.pairwise_cons.mpr ⟨hc, hapart⟩, ?_⟩
      intro l hl a ha
      have hlc : l.Before c :=
        (conflicts_eq_false_iff (hlast l hl c List.mem_cons_self)).mp (hfree l hl)
      rcases List.mem_cons.mp ha with rfl | ha
      · exact hlc
      · exact hlc.trans (hc a ha)

/-- **Causes of a drop.**  What is dropped points outside the text, or
conflicts with a correction accepted before it. -/
theorem cause (h : Selection t last cs accepted dropped) :
    ∀ d ∈ dropped, (∃ e, t.toByteRange d.range = .error e) ∨
      ∃ a, (a ∈ last ∨ a ∈ accepted) ∧ conflicts a d = true := by
  induction h with
  | nil => simp
  | outside herror _ ih =>
      intro d hd
      rcases List.mem_cons.mp hd with rfl | hd
      · exact Or.inl ⟨_, herror⟩
      · exact ih d hd
  | conflict _ hconflict _ ih =>
      intro d hd
      rcases List.mem_cons.mp hd with rfl | hd
      · exact Or.inr ⟨_, Or.inl rfl, hconflict⟩
      · exact ih d hd
  | accept _ _ _ ih =>
      intro d hd
      rcases ih d hd with houtside | ⟨a, hmem, hconflict⟩
      · exact Or.inl houtside
      · refine Or.inr ⟨a, Or.inr ?_, hconflict⟩
        rcases hmem with hlast | hmem
        · obtain rfl := Option.mem_some_iff.mp hlast
          exact List.mem_cons_self
        · exact List.mem_cons_of_mem _ hmem

end Selection

/-- **What stands apart is accepted.**  Corrections that map onto the text, each of
which starts behind the one before it, are all accepted in that order. -/
theorem select_of_apart {t : Text} {last : Option Correction} {cs : List Correction}
    (hinside : ∀ c ∈ cs, ∃ bytes, t.toByteRange c.range = .ok bytes)
    (hapart : cs.Pairwise Before) (hlast : ∀ l ∈ last, ∀ c ∈ cs, l.Before c) :
    (select t last cs).value = (cs, []) := by
  induction cs generalizing last with
  | nil => rfl
  | cons c cs ih =>
      obtain ⟨⟨bytes, hbytes⟩, hrest⟩ := List.forall_mem_cons.mp hinside
      obtain ⟨hfirst, hothers⟩ := List.pairwise_cons.mp hapart
      have hfree : last.filter (fun l => conflicts l c) = none := by
        refine Option.filter_eq_none_iff.mpr fun l hl => ?_
        have hbefore := hlast l hl c List.mem_cons_self
        simpa using (conflicts_eq_false_iff (Nat.le_of_lt hbefore.start_lt)).mpr hbefore
      have htail : (select t (some c) cs).value = (cs, []) := by
        refine ih hrest hothers ?_
        rintro l ⟨rfl⟩
        exact hfirst
      simp [select, hbytes, hfree, htail]

end Correction

end DeclLint
