import DeclLint.Proofs.Checked.Linter
import DeclLint.Proofs.Linter.Autocorrect
import DeclLint.Proofs.Text.Boundary

/-!
# Spans that miss the text

A rule may report any span: one whose end fits no word, one behind the text, one that
splits a character.  Such a span is no violation and is not corrected, and it is as if it
had not been reported: rules that differ in such spans only find the same violations and
make the same corrections (`Linter.value_lint_eq`, `Linter.value_corrections_eq`).  Nor is
there any operation on the way that cannot be carried out (`Linter.Unfailing`).

* `Text.misses_iff` — the spans that are not converted;
* `Text.filterMap_inside` — what a function makes of them does not matter;
* `Linter.unfailing` — no operation of a linter faults;
* `Linter.spans_isolated` — both for any text, tree and rules.
-/

namespace DeclLint

namespace Text

variable {t : Text} {r : ByteRange}

/-- A span is none of a text: its end fits no word or lies behind the text, or it splits a
character. -/
def Misses (t : Text) (r : ByteRange) : Prop :=
  maxOffset < r.stop ∨ t.byteLength < r.stop ∨ ¬ t.IsBoundary r.location ∨ ¬ t.IsBoundary r.stop

theorem IsBoundary.le {offset : Nat} (h : t.IsBoundary offset) : offset ≤ t.byteLength := by
  obtain ⟨front, back, hchars, rfl⟩ := isBoundary_iff.mp h
  rw [byteLength, hchars, utf8Size_append]
  exact Nat.le_add_right _ _

/-- The spans that miss a text are those that are not converted. -/
theorem misses_iff : t.Misses r ↔ ∃ e, t.toCharRange r = .error e := by
  have hmaps := exists_toCharRange_iff (t := t) (r := r)
  constructor
  · intro hmisses
    cases hrange : t.toCharRange r with
    | error e => exact ⟨e, rfl⟩
    | ok chars =>
        obtain ⟨hfits, hstart, hstop⟩ := hmaps.mp ⟨chars, hrange⟩
        have hle := hstop.le
        rcases hmisses with hover | hbehind | hsplit | hsplit
        · omega
        · omega
        · exact absurd hstart hsplit
        · exact absurd hstop hsplit
  · rintro ⟨e, herror⟩
    by_contra hnot
    obtain ⟨hfits, -, hstart, hstop⟩ : r.stop ≤ maxOffset ∧ r.stop ≤ t.byteLength ∧
        t.IsBoundary r.location ∧ t.IsBoundary r.stop := by
      simpa only [Misses, not_or, Nat.not_lt, Classical.not_not] using hnot
    obtain ⟨chars, hchars⟩ := hmaps.mpr ⟨hfits, hstart, hstop⟩
    rw [herror] at hchars
    cases hchars

/-- Those of some spans that do not miss a text. -/
def inside (t : Text) (spans : List ByteRange) : List ByteRange :=
  spans.filter fun s => (t.toCharRange s).toBool

theorem toBool_toCharRange (h : t.Misses r) : (t.toCharRange r).toBool = false := by
  obtain ⟨e, herror⟩ := misses_iff.mp h
  rw [herror]
  rfl

/-- **What misses the text does not matter** to a function that makes nothing of it. -/
theorem filterMap_inside {α : Type} {f : ByteRange → Option α}
    (h : ∀ s, t.Misses s → f s = none) (spans : List ByteRange) :
    (t.inside spans).filterMap f = spans.filterMap f := by
  rw [inside, List.filterMap_filter]
  refine List.filterMap_congr fun s _ => ?_
  cases hrange : t.toCharRange s with
  | ok chars => rfl
  | error e => exact (h s (misses_iff.mpr ⟨e, hrange⟩)).symm

end Text

namespace Rule

variable {file : SourceFile} {r r' : Rule} {s : ByteRange}

theorem value_locate?_of_misses (h : file.text.Misses s) : (r.locate? file s).value = none := by
  obtain ⟨e, herror⟩ := Text.misses_iff.mp h
  rw [locate?, herror]
  rfl

/-- Where a span begins does not depend on the rule that reports it. -/
theorem value_locate?_eq (r r' : Rule) (file : SourceFile) (s : ByteRange) :
    (r'.locate? file s).value = (r.locate? file s).value := by
  unfold locate?
  cases file.text.toCharRange s <;> rfl

/-- A span that misses the text is no violation. -/
theorem value_violation?_of_misses (h : file.text.Misses s) (silencing : Silencing) :
    (r.violation? file silencing s).value = none := by
  rw [violation?, Logged.value_bind, value_locate?_of_misses h]
  rfl

/-- A span that misses the text is not corrected. -/
theorem value_correction?_of_misses (h : file.text.Misses s) (fix : Fix) (index : Nat)
    (silencing : Silencing) : (r.correction? fix index file silencing s).value = none := by
  rw [correction?, Logged.value_bind, value_locate?_of_misses h]
  rfl

/-- Two rules that are the same, apart from spans that miss the text of a file. -/
structure Agrees (file : SourceFile) (r r' : Rule) : Prop where
  description_eq : r'.description = r.description
  severity_eq : r'.severity = r.severity
  message_eq : r'.message file = r.message file
  fix_eq : r'.fix = r.fix
  inside_eq : ∀ kind d container,
    file.text.inside (r'.detect file kind d container).value =
      file.text.inside (r.detect file kind d container).value

/-- A rule with some of the spans that it reports left out. -/
def without (r : Rule) (omitted : ByteRange → Bool) : Rule :=
  { r with
    detect := fun file kind d container => do
      let detected ← r.detect file kind d container
      pure (detected.filter fun s => !omitted s) }

/-- Only spans that miss the text may be left out. -/
theorem agrees_without {omitted : ByteRange → Bool}
    (h : ∀ s, omitted s = true → file.text.Misses s) : r.Agrees file (r.without omitted) := by
  refine ⟨rfl, rfl, rfl, rfl, fun kind d container => ?_⟩
  rw [without, Logged.value_bind, Logged.value_pure, Text.inside, List.filter_filter]
  refine List.filter_congr fun s _ => ?_
  cases homitted : omitted s with
  | false => simp
  | true => simp [Text.toBool_toCharRange (h s homitted)]

namespace Agrees

variable (h : r.Agrees file r')

include h

theorem id_eq : r'.id = r.id := by
  rw [id, id, h.description_eq]

/-- The two rules report the same spans of a tree, apart from those that miss the text. -/
theorem inside_detectAll (root : Declaration) :
    file.text.inside (r'.detectAll file root).value =
      file.text.inside (r.detectAll file root).value := by
  unfold detectAll Text.inside
  rw [Declaration.value_visitAll, Declaration.value_visitAll, List.filter_flatMap,
    List.filter_flatMap]
  congr 1
  funext p
  cases p.2.kind with
  | none => rfl
  | some kind => exact h.inside_eq kind p.2 p.1

theorem value_violation?_eq (silencing : Silencing) (s : ByteRange) :
    (r'.violation? file silencing s).value = (r.violation? file silencing s).value := by
  unfold violation?
  rw [Logged.value_bind, Logged.value_bind, value_locate?_eq r r', h.id_eq, h.description_eq,
    h.severity_eq, h.message_eq]

theorem value_correction?_eq (fix : Fix) (index : Nat) (silencing : Silencing) (s : ByteRange) :
    (r'.correction? fix index file silencing s).value =
      (r.correction? fix index file silencing s).value := by
  unfold correction?
  rw [Logged.value_bind, Logged.value_bind, value_locate?_eq r r', h.id_eq]

/-- **Violations.**  The two rules have the same ones. -/
theorem value_violations_eq (root : Declaration) (silencing : Silencing) :
    (r'.violations file root silencing).value = (r.violations file root silencing).value := by
  unfold violations
  rw [Logged.value_bind, Logged.value_bind, Logged.value_filterMap, Logged.value_filterMap]
  simp only [h.value_violation?_eq silencing]
  have hnone : ∀ s, file.text.Misses s → (r.violation? file silencing s).value = none :=
    fun s hs => value_violation?_of_misses hs silencing
  rw [← Text.filterMap_inside hnone, h.inside_detectAll root, Text.filterMap_inside hnone]

/-- **Corrections.**  The two rules make the same ones. -/
theorem value_corrections_eq (index : Nat) (root : Declaration) (silencing : Silencing) :
    (r'.corrections index file root silencing).value =
      (r.corrections index file root silencing).value := by
  unfold corrections
  rw [h.fix_eq]
  cases r.fix with
  | none => rfl
  | some fix =>
      dsimp only
      rw [Logged.value_bind, Logged.value_bind, Logged.value_filterMap, Logged.value_filterMap]
      simp only [h.value_correction?_eq fix index silencing]
      have hnone : ∀ s, file.text.Misses s →
          (r.correction? fix index file silencing s).value = none :=
        fun s hs => value_correction?_of_misses hs fix index silencing
      rw [← Text.filterMap_inside hnone, h.inside_detectAll root, Text.filterMap_inside hnone]

end Agrees

end Rule

namespace Linter

variable {linter linter' : Linter} {file : SourceFile}

/-- Rules that agree find the same violations. -/
theorem value_lint_eq (h : List.Forall₂ (Rule.Agrees file) linter.rules linter'.rules) :
    (linter'.lint file).value = (linter.lint file).value := by
  obtain ⟨rules⟩ := linter
  obtain ⟨rules'⟩ := linter'
  unfold lint
  cases file.tree with
  | error e => rfl
  | ok root =>
      dsimp only at h
      simp only [Logged.value_bind, Logged.value_flatMap]
      induction h with
      | nil => rfl
      | cons hagrees _ ih =>
          rw [List.flatMap_cons, List.flatMap_cons, ih, hagrees.value_violations_eq]

/-- Rules that agree make the same corrections. -/
theorem value_corrections_eq (h : List.Forall₂ (Rule.Agrees file) linter.rules linter'.rules) :
    (linter'.corrections file).value = (linter.corrections file).value := by
  obtain ⟨rules⟩ := linter
  obtain ⟨rules'⟩ := linter'
  unfold corrections
  cases file.tree with
  | error e => rfl
  | ok root =>
      dsimp only at h
      simp only [Logged.value_bind, Logged.value_flatMap]
      generalize 0 = first
      induction h generalizing first with
      | nil => rfl
      | cons hagrees _ ih =>
          rw [List.zipIdx_cons, List.zipIdx_cons, List.flatMap_cons, List.flatMap_cons, ih,
            hagrees.value_corrections_eq]

/-- No operation of a linter on a file faults, nor does one of the rule against runtime
`let`s, nor one that applies corrections to the text. -/
structure Unfailing (linter : Linter) (file : SourceFile) : Prop where
  lint_eq : (Checked.lint linter file : Checked Empty _) = .ok (linter.lint file)
  corrections_eq :
    (Checked.corrections linter file : Checked Empty _) = .ok (linter.corrections file)
  correct_eq : (Checked.correct linter file : Checked Empty _) = .ok (linter.correct file)
  ofCorrections_eq : ∀ corrections,
    (Checked.ofCorrections file.text corrections : Checked Empty _) =
      .ok (CorrectedText.ofCorrections file.text corrections)
  detect_eq : ∀ kind d container,
    (Checked.detect file kind d container : Checked Empty _) =
      .ok (RuntimeLet.detect file kind d container)
  letRange_eq : ∀ s,
    (Checked.letRange file s : Checked Empty _) = .ok (RuntimeLet.letRange file s)
  varForLet_eq : ∀ s,
    (Checked.varForLet file s : Checked Empty _) = .ok (RuntimeLet.varForLet file s)

/-- No step of a linter faults on a text whose offsets fit a word. -/
theorem unfailing (linter : Linter) (hsize : file.text.byteLength ≤ maxOffset) :
    linter.Unfailing file where
  lint_eq := Checked.lint_eq linter hsize
  corrections_eq := Checked.corrections_eq linter hsize
  correct_eq := Checked.correct_eq linter hsize
  ofCorrections_eq corrections := Checked.ofCorrections_eq corrections hsize
  detect_eq := Checked.detect_eq file
  letRange_eq := Checked.letRange_eq file
  varForLet_eq := Checked.varForLet_eq file

/-- **Isolation.**  Whatever the tree of a file and whatever spans the rules report and their
fixes name, no operation faults.  A reported span that misses the text is no violation and
is not corrected, and reporting it or not changes nothing of the rest. -/
theorem spans_isolated (linter : Linter) (file : SourceFile)
    (hsize : file.text.byteLength ≤ maxOffset) :
    linter.Unfailing file ∧
      (∀ s, file.text.Misses s → ∀ (r : Rule) (silencing : Silencing),
        (r.violation? file silencing s).value = none ∧
          ∀ fix index, (r.correction? fix index file silencing s).value = none) ∧
      ∀ linter' : Linter, List.Forall₂ (Rule.Agrees file) linter.rules linter'.rules →
        (linter'.lint file).value = (linter.lint file).value ∧
          (linter'.corrections file).value = (linter.corrections file).value ∧
          (linter'.correct file).value = (linter.correct file).value := by
  refine ⟨unfailing linter hsize, fun s hs r silencing => ⟨?_, fun fix index => ?_⟩,
    fun linter' h => ⟨value_lint_eq h, value_corrections_eq h, ?_⟩⟩
  · exact Rule.value_violation?_of_misses hs silencing
  · exact Rule.value_correction?_of_misses hs fix index silencing
  · rw [correct, correct, Logged.value_bind, Logged.value_bind, value_corrections_eq h]

/-- A rule that reports some spans of every declaration and puts an `e` in their place. -/
def reckless (spans : List ByteRange) : Rule where
  description :=
    { identifier := "reckless", name := "", description := "", kind := .lint, optIn := false }
  detect := fun _ _ _ _ => pure spans
  message := fun _ _ => ""
  fix := some { replacement := fun _ _ => some "e" }

/-- Of four spans of a text with one character, the first fits no word, the second lies
behind the text and the last splits the character.  Only the third is corrected, as if it
were the only one. -/
theorem spans_isolated_accent :
    let file : SourceFile := .withTree none "é" { kind := some .varGlobal }
    let astray : List ByteRange := [⟨1, maxOffset⟩, ⟨0, 3⟩, ⟨1, 1⟩]
    let rule := reckless [⟨1, maxOffset⟩, ⟨0, 3⟩, ⟨0, 2⟩, ⟨1, 1⟩]
    let all : Linter := ⟨[rule]⟩
    let one : Linter := ⟨[rule.without astray.contains]⟩
    file.text.byteLength ≤ maxOffset ∧
      (Checked.correct all file : Checked Empty _) = .ok (all.correct file) ∧
      (one.correct file).value = (all.correct file).value ∧
      (all.corrections file).value = [⟨"reckless", 0, ⟨0, 1⟩, "e", ⟨none, 1, 1, 0⟩⟩] := by
  intro file astray rule all one
  have hsize : file.text.byteLength ≤ maxOffset := by decide
  have hagrees : List.Forall₂ (Rule.Agrees file) all.rules one.rules := by
    refine .cons (Rule.agrees_without fun s hs => ?_) .nil
    have hs : s = ⟨1, maxOffset⟩ ∨ s = ⟨0, 3⟩ ∨ s = ⟨1, 1⟩ := by simpa [astray] using hs
    rcases hs with rfl | rfl | rfl
    · exact Text.misses_iff.mpr ⟨_, rfl⟩
    · exact Text.misses_iff.mpr ⟨_, rfl⟩
    · exact Text.misses_iff.mpr ⟨_, rfl⟩
  have hisolated := spans_isolated all file hsize
  refine ⟨hsize, hisolated.1.correct_eq, (hisolated.2.2 one hagrees).2.2, ?_⟩
  decide +kernel

end Linter

end DeclLint
