import DeclLint.Proofs.Correction.Cause
import DeclLint.Proofs.Linter.Origin
import DeclLint.Proofs.Text.Boundary

/-!
# Only valid edits are handed over

A fix names a span of bytes, and the correction that is made of it is a span of
characters, which is turned into bytes again where it is applied.  Nothing is lost on the
way, whatever the rules report and their fixes name: the two spans are one span of the
text (`Linter.Edits.sameSpan`), and the correction carries the position where it begins
and the place of its rule.

So whatever is dropped when the corrections of a file are applied was in the way of
another one, and nothing that is noted then is a warning.

* `Correction.lines_select_of_inside` — what a selection notes if nothing points outside;
* `CorrectedText.exists_applied_of_mem_dropped` — what is in the way of a dropped
  correction;
* `Linter.corrections_valid` — the corrections of a file, and those that are dropped.
-/

namespace DeclLint

/-- A selection from corrections inside the text notes no warning. -/
theorem Correction.lines_select_of_inside {t : Text} {last : Option Correction}
    {cs : List Correction} (hinside : ∀ c ∈ cs, t.Encloses c.range) :
    ∀ line ∈ (select t last cs).lines, line.level = .debug := by
  induction cs generalizing last with
  | nil => simp [select]
  | cons c cs ih =>
      obtain ⟨hfirst, hothers⟩ := List.forall_mem_cons.mp hinside
      obtain ⟨bytes, hbytes⟩ := Text.exists_toByteRange_iff.mpr hfirst
      unfold select
      rw [hbytes]
      dsimp only
      split
      next l hconflict =>
        intro line hline
        rw [Logged.lines_bind, List.mem_append] at hline
        rcases hline with hnote | hrest
        · obtain rfl := List.mem_singleton.mp hnote
          rfl
        · rw [Logged.lines_bind, Logged.lines_pure, List.append_nil] at hrest
          exact ih hothers line hrest
      next =>
        intro line hline
        rw [Logged.lines_bind, Logged.lines_pure, List.append_nil] at hline
        exact ih hothers line hline

namespace CorrectedText

/-- **What is in the way.**  A correction inside the text is dropped only for one that was
made, is considered no later, and starts where it starts or ends behind that place. -/
theorem exists_applied_of_mem_dropped {t : Text} {corrections : List Correction} {d : Correction}
    (hd : d ∈ (ofCorrections t corrections).value.dropped) (hinside : t.Encloses d.range) :
    ∃ a ∈ (ofCorrections t corrections).value.applied, a.precedes d = true ∧
      (a.range.location = d.range.location ∨ d.range.location < a.range.stop) := by
  obtain ⟨applied, dropped, h, happlied, hdropped⟩ := exists_numbered t corrections
  obtain ⟨p, hp, rfl⟩ := List.mem_map.mp (hdropped ▸ hd)
  rcases exists_conflict h hp with houtside | ⟨a, ha, hsooner, hconflict⟩
  · exact absurd hinside houtside
  · exact ⟨a.1, happlied ▸ List.mem_map_of_mem ha, hsooner.precedes,
      (Correction.conflicts_eq_true_iff hsooner.start_le).mp hconflict⟩

end CorrectedText

namespace Linter

variable {linter : Linter} {r : Rule} {file : SourceFile} {detected : ByteRange} {c : Correction}

namespace Edits

/-- **One span.**  The bytes that a fix names and the characters of its correction are the
same part of the text. -/
theorem sameSpan (h : linter.Edits file r detected c) :
    ∃ fix part, r.fix = some fix ∧ fix.range file detected = some part ∧
      file.text.SameSpan part c.range := by
  obtain ⟨fix, hfix, hmade⟩ := h.made
  obtain ⟨-, ⟨part, hpart, -, -, hrange⟩, -⟩ := Rule.correction?_eq_some hmade
  exact ⟨fix, part, hfix, hpart, .of_toCharRange hrange⟩

theorem encloses (h : linter.Edits file r detected c) : file.text.Encloses c.range := by
  obtain ⟨-, part, -, -, hspan⟩ := h.sameSpan
  exact Text.exists_toByteRange_iff.mp ⟨part, hspan.toByteRange_eq⟩

theorem ruleId_eq (h : linter.Edits file r detected c) : c.ruleId = r.id := by
  obtain ⟨fix, -, hmade⟩ := h.made
  exact (Rule.correction?_eq_some hmade).2.2.2.2.1

/-- **The position of a correction.**  It is that of the first character to replace. -/
theorem location_eq (h : linter.Edits file r detected c) :
    Location.ofCharOffset? file.path file.text c.range.location = some c.location := by
  obtain ⟨fix, -, hmade⟩ := h.made
  exact (Rule.correction?_eq_some hmade).2.2.1

end Edits

theorem encloses_of_mem_corrections (hc : c ∈ (linter.corrections file).value) :
    file.text.Encloses c.range := by
  obtain ⟨r, detected, h⟩ := mem_corrections_iff_edits.mp hc
  exact h.encloses

/-- What is dropped was proposed. -/
theorem mem_corrections_of_mem_dropped (hc : c ∈ (linter.correct file).value.dropped) :
    c ∈ (linter.corrections file).value := by
  have hperm := (CorrectedText.ofCorrections_dropped file.text (linter.corrections file).value).1
  exact hperm.mem_iff.mp (List.mem_append_right _ hc)

/-- **Valid edits.**  Whatever the text, the tree and the rules, a correction of the file is
made by the rule at its index, which it is named for, of a part that the fix of that rule
names: its characters are turned into exactly these bytes, and its location has the offset,
the line and the column of its first character.  So none is dropped for pointing outside
the text, and no warning is noted when they are applied: one that is dropped starts where
another one starts that was made and is considered no later, or inside that one. -/
theorem corrections_valid (linter : Linter) (file : SourceFile) :
    (∀ c ∈ (linter.corrections file).value, ∃ r fix detected part,
      linter.Edits file r detected c ∧
        linter.rules[c.ruleIndex]? = some r ∧ c.ruleId = r.id ∧
        r.fix = some fix ∧ fix.range file detected = some part ∧
        file.text.toByteRange c.range = .ok part ∧ file.text.SameSpan part c.range ∧
        c.location.file = file.path ∧ c.location.offset = c.range.location ∧
        file.text.lineAndCharacter? c.range.location =
          some ⟨c.location.line, c.location.character⟩) ∧
      (∀ d ∈ (linter.correct file).value.dropped,
        file.text.Encloses d.range ∧
          ∃ a ∈ (linter.correct file).value.applied, a.precedes d = true ∧
            (a.range.location = d.range.location ∨ d.range.location < a.range.stop)) ∧
      ∀ line ∈ (CorrectedText.ofCorrections file.text (linter.corrections file).value).lines,
        line.level = .debug := by
  refine ⟨?_, ?_, ?_⟩
  · intro c hc
    obtain ⟨r, detected, h⟩ := mem_corrections_iff_edits.mp hc
    obtain ⟨fix, part, hfix, hpart, hspan⟩ := h.sameSpan
    obtain ⟨position, hposition, hlocation⟩ := Option.map_eq_some_iff.mp h.location_eq
    refine ⟨r, fix, detected, part, h, h.rule_eq, h.ruleId_eq, hfix, hpart,
      hspan.toByteRange_eq, hspan, ?_⟩
    rw [← hlocation]
    exact ⟨rfl, rfl, hposition⟩
  · intro d hd
    have hinside := encloses_of_mem_corrections (mem_corrections_of_mem_dropped hd)
    exact ⟨hinside, CorrectedText.exists_applied_of_mem_dropped hd hinside⟩
  · have hinside : ∀ c ∈ (linter.corrections file).value.mergeSort Correction.precedes,
        file.text.Encloses c.range := fun c hc =>
      encloses_of_mem_corrections (List.mem_mergeSort.mp hc)
    intro line hline
    unfold CorrectedText.ofCorrections at hline
    rw [Logged.lines_bind, Logged.lines_pure, List.append_nil] at hline
    exact Correction.lines_select_of_inside hinside line hline

/-- Two copies of one rule propose the same edit.  The second one is dropped for the
first. -/
theorem corrections_valid_twice :
    let linter : Linter := ⟨[RuntimeLet.rule, RuntimeLet.rule]⟩
    let first : Correction := ⟨"discouraged_struct_runtime_let", 0, ⟨49, 3⟩, "var", ⟨none, 3, 3, 49⟩⟩
    let second : Correction := ⟨"discouraged_struct_runtime_let", 1, ⟨49, 3⟩, "var", ⟨none, 3, 3, 49⟩⟩
    (linter.corrections attributeAbove).value = [first, second] ∧
      attributeAbove.text.toByteRange second.range = .ok ⟨49, 3⟩ ∧
      second ∈ (linter.correct attributeAbove).value.dropped ∧
      ∃ a ∈ (linter.correct attributeAbove).value.applied, a.precedes second = true := by
  intro linter first second
  have hcorrections : (linter.corrections attributeAbove).value = [first, second] := by
    obtain ⟨root, htree⟩ : ∃ root, attributeAbove.tree = .ok root := ⟨_, rfl⟩
    have hrules : linter.rules.zipIdx = [(RuntimeLet.rule, 0), (RuntimeLet.rule, 1)] := rfl
    rw [value_corrections_of_tree htree, hrules]
    simp only [List.flatMap_cons, List.flatMap_nil, List.append_nil]
    rw [Rule.value_corrections rfl, Rule.value_corrections rfl, detected_attributeAbove htree,
      silencing_attributeAbove]
    decide +kernel
  have hbytes : attributeAbove.text.toByteRange second.range = .ok ⟨49, 3⟩ := by
    with_unfolding_all rfl
  have hdropped : second ∈ (linter.correct attributeAbove).value.dropped := by
    have hcorrect : (linter.correct attributeAbove).value =
        (CorrectedText.ofCorrections attributeAbove.text
          (linter.corrections attributeAbove).value).value := rfl
    have hsorted : [first, second].mergeSort Correction.precedes = [first, second] :=
      List.mergeSort_of_pairwise (by decide)
    rw [hcorrect, hcorrections, CorrectedText.ofCorrections, hsorted]
    decide +kernel
  obtain ⟨a, ha, hprecedes, -⟩ := ((corrections_valid linter attributeAbove).2.1 second hdropped).2
  exact ⟨hcorrections, hbytes, hdropped, a, ha, hprecedes⟩

end Linter

end DeclLint
