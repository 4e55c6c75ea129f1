import DeclLint.Proofs.Correction.Frame
import DeclLint.Proofs.Linter.Autocorrect

/-!
# Where corrections come from

A linter may have any rules, with fixes that return any spans and texts.  Whatever
these do, a correction that comes out of a run was made of a span that its own rule
reported of a declaration of the file (`Linter.Edits`), and replaces a part of that span.

A violation is silenced on the line on which the reported span begins, a correction on
the line on which the part to replace begins.  Where these lines differ, a span may be
corrected that is not reported; the line of the correction is then a later one.

* `Rule.mem_detectAll_iff` — what rules report, declaration by declaration;
* `Rule.correction?_eq_some` — what a fix makes of a reported span;
* `Linter.mem_corrections_iff_edits` — the corrections of a file are what fixes make;
* `Linter.Edits.mem_lint_or_later` — a corrected span is a violation, or silenced on its
  first line and corrected on a later one;
* `Linter.corrections_reported` — every correction and what is reported of its span;
* `Linter.correct_frame` — corrections that are made stay inside reported spans, and
  nothing else changes.
-/

namespace DeclLint

namespace Rule

variable {r : Rule} {file : SourceFile} {silencing : Silencing} {fix : Fix} {index : Nat}
  {detected : ByteRange} {c : Correction}

/-- What is reported of a tree is reported of one of its declarations. -/
theorem mem_detectAll_iff {root : Declaration} :
    detected ∈ (r.detectAll file root).value ↔
      ∃ container d kind, (container, d) ∈ root.walk none ∧ d.kind = some kind ∧
        detected ∈ (r.detect file kind d container).value := by
  unfold detectAll
  rw [Declaration.value_visitAll, List.mem_flatMap]
  constructor
  · rintro ⟨⟨container, d⟩, hp, hmem⟩
    dsimp only at hmem
    cases hkind : d.kind with
    | none => simp [hkind] at hmem
    | some kind => exact ⟨container, d, kind, hp, hkind, by simpa [hkind] using hmem⟩
  · rintro ⟨container, d, kind, hp, hkind, hmem⟩
    exact ⟨(container, d), hp, by simpa [hkind] using hmem⟩

/-- A span has a location exactly if it maps onto the text, and that is where it
begins. -/
theorem value_locate?_eq_some {location : Location}
    (h : (r.locate? file detected).value = some location) :
    ∃ front mid back, file.text.chars = front ++ mid ++ back ∧
      detected = ⟨utf8Size front, utf8Size mid⟩ ∧ file.text.before detected = front ∧
        location = .behind file.path front := by
  unfold locate? at h
  cases hchars : file.text.toCharRange detected with
  | error e => simp [hchars] at h
  | ok range =>
      obtain ⟨front, mid, back, htext, hdetected, hrange, -⟩ :=
        Text.toCharRange_eq_ok_iff.mp hchars
      have hsplit : file.text.chars = front ++ (mid ++ back) :=
        htext.trans (List.append_assoc _ _ _)
      have hbehind := Location.ofCharOffset?_of_append hsplit file.path
      simp only [hchars, Logged.value_pure, hrange, hbehind, Option.some.injEq] at h
      have hbefore : file.text.before detected = front :=
        Text.before_of_append hsplit (by rw [hdetected])
      exact ⟨front, mid, back, htext, hdetected, hbefore, h.symm⟩

/-- **What a fix makes of a reported span.**  The part that is replaced lies inside the
span and maps onto the text, and the line on which it begins is not silenced. -/
theorem correction?_eq_some
    (h : (r.correction? fix index file silencing detected).value = some c) :
    (∃ location, (r.locate? file detected).value = some location) ∧
      (∃ part, fix.range file detected = some part ∧ detected.contains part = true ∧
        fix.replacement file part = some c.replacement ∧
          file.text.toCharRange part = .ok c.range) ∧
      Location.ofCharOffset? file.path file.text c.range.location = some c.location ∧
      silencing.isDisabled c.location.line r.id = false ∧ c.ruleId = r.id ∧
      c.ruleIndex = index := by
  unfold correction? at h
  rw [Logged.value_bind] at h
  split at h
  next location part hlocate hpart =>
    by_cases hcontains : detected.contains part = true
    · rw [hcontains, Bool.not_true, if_neg (by decide)] at h
      split at h
      next => simp at h
      next => simp at h
      next replacement range hreplacement hrange =>
        cases hlocation : Location.ofCharOffset? file.path file.text range.location with
        | none => simp [hlocation] at h
        | some start =>
            rw [Logged.value_pure, hlocation, Option.bind_eq_bind, Option.bind_some] at h
            split at h
            next => simp at h
            next henabled =>
              obtain rfl := Option.some.inj h
              exact ⟨⟨location, hlocate⟩, ⟨part, hpart, hcontains, hreplacement, hrange⟩,
                hlocation, Bool.eq_false_iff.mpr henabled, rfl, rfl⟩
    · rw [Bool.eq_false_iff.mpr hcontains] at h
      simp at h
  next => simp at h

end Rule

namespace Linter

variable {linter : Linter} {r : Rule} {file : SourceFile} {detected : ByteRange} {c : Correction}

/-- A correction is what the fix of a rule makes of a span that the rule reports of a
declaration of the file. -/
structure Edits (linter : Linter) (file : SourceFile) (r : Rule) (detected : ByteRange)
    (c : Correction) : Prop where
  rule_eq : linter.rules[c.ruleIndex]? = some r
  reported : ∃ root container d kind, file.tree = .ok root ∧ (container, d) ∈ root.walk none ∧
    d.kind = some kind ∧ detected ∈ (r.detect file kind d container).value
  made : ∃ fix, r.fix = some fix ∧
    (r.correction? fix c.ruleIndex file (silencing file) detected).value = some c

/-- **The corrections of a file.**  They are what the fixes of its rules make of what
these report. -/
theorem mem_corrections_iff_edits :
    c ∈ (linter.corrections file).value ↔ ∃ r detected, linter.Edits file r detected c := by
  cases htree : file.tree with
  | error e =>
      rw [value_corrections_of_error htree]
      constructor
      · simp
      · rintro ⟨r, detected, -, ⟨root, -, -, -, hroot, -⟩, -⟩
        simp [htree] at hroot
  | ok root =>
      rw [value_corrections_of_tree htree, List.mem_flatMap]
      constructor
      · rintro ⟨⟨r, index⟩, hmem, hc⟩
        rw [List.mk_mem_zipIdx_iff_getElem?] at hmem
        cases hfix : r.fix with
        | none => simp [Rule.corrections, hfix] at hc
        | some fix =>
            rw [Rule.value_corrections hfix, List.mem_filterMap] at hc
            obtain ⟨detected, hdetected, hmade⟩ := hc
            obtain ⟨container, d, kind, hp, hkind, hreported⟩ := Rule.mem_detectAll_iff.mp hdetected
            obtain rfl : c.ruleIndex = index := (Rule.correction?_eq_some hmade).2.2.2.2.2
            exact ⟨r, detected, hmem, ⟨root, container, d, kind, htree, hp, hkind, hreported⟩,
              fix, hfix, hmade⟩
      · rintro ⟨r, detected, hrule, ⟨root', container, d, kind, hroot, hp, hkind, hreported⟩,
          fix, hfix, hmade⟩
        obtain rfl : root = root' := by simpa [htree] using hroot
        refine ⟨(r, c.ruleIndex), List.mk_mem_zipIdx_iff_getElem?.mpr hrule, ?_⟩
        rw [Rule.value_corrections hfix, List.mem_filterMap]
        exact ⟨detected, Rule.mem_detectAll_iff.mpr ⟨container, d, kind, hp, hkind, hreported⟩,
          hmade⟩

namespace Edits

/-- **A part of what was reported.**  The bytes that a correction replaces lie inside the
span that it was made of. -/
theorem exists_part (h : linter.Edits file r detected c) :
    ∃ part, detected.contains part = true ∧ file.text.toByteRange c.range = .ok part := by
  obtain ⟨fix, -, hmade⟩ := h.made
  obtain ⟨-, ⟨part, -, hcontains, -, hrange⟩, -⟩ := Rule.correction?_eq_some hmade
  obtain ⟨front, mid, back, htext, rfl, hchars, hfits⟩ := Text.toCharRange_eq_ok_iff.mp hrange
  refine ⟨_, hcontains, Text.toByteRange_eq_ok_iff.mpr ⟨front, mid, back, htext, hchars, rfl, ?_⟩⟩
  have hfront := length_le_utf8Size front
  have hmid := length_le_utf8Size mid
  rw [ByteRange.stop] at hfits
  rw [hchars, CharRange.stop]
  dsimp only at hfits ⊢
  omega

/-- **Lines of a correction.**  The span begins no later than the correction that was
made of it. -/
theorem line_le (h : linter.Edits file r detected c) :
    (Location.behind file.path (file.text.before detected)).line ≤ c.location.line := by
  obtain ⟨fix, -, hmade⟩ := h.made
  obtain ⟨⟨location, hlocate⟩, ⟨part, -, hcontains, -, hrange⟩, hstart, -⟩ :=
    Rule.correction?_eq_some hmade
  obtain ⟨front, mid, back, htext, hdetected, hbefore, -⟩ := Rule.value_locate?_eq_some hlocate
  obtain ⟨front', mid', back', htext', hpart, hchars, -⟩ := Text.toCharRange_eq_ok_iff.mp hrange
  have hsplit : file.text.chars = front ++ (mid ++ back) := htext.trans (List.append_assoc _ _ _)
  have hsplit' : file.text.chars = front' ++ (mid' ++ back') :=
    htext'.trans (List.append_assoc _ _ _)
  have hle : utf8Size front ≤ utf8Size front' := by
    have hlocation := (ByteRange.contains_eq_true_iff.mp hcontains).1
    rw [hdetected, hpart] at hlocation
    exact hlocation
  obtain ⟨between, rfl⟩ :=
    prefix_of_utf8Size_le ⟨_, hsplit.symm⟩ ⟨_, hsplit'.symm⟩ hle
  rw [hchars, Location.ofCharOffset?_of_append hsplit'] at hstart
  rw [hbefore, ← Option.some.inj hstart]
  simp only [Location.behind, LinePosition.behind, lineBreaks_append]
  omega

/-- **Reported, or silenced and corrected later.**  A violation of the rule stands where
the span of a correction begins, unless the rule is silenced on that line; the
correction then begins on a later line. -/
theorem mem_lint_or_later (h : linter.Edits file r detected c) :
    (∃ v ∈ (linter.lint file).value, v.ruleId = r.id ∧
        v.location = .behind file.path (file.text.before detected)) ∨
      (silencing file).isDisabled
          (Location.behind file.path (file.text.before detected)).line r.id = true ∧
        (Location.behind file.path (file.text.before detected)).line < c.location.line := by
  have hle := h.line_le
  obtain ⟨fix, -, hmade⟩ := h.made
  obtain ⟨⟨location, hlocate⟩, -, -, henabled, -, -⟩ := Rule.correction?_eq_some hmade
  obtain ⟨front, -, -, -, -, hbefore, rfl⟩ := Rule.value_locate?_eq_some hlocate
  rw [hbefore] at hle ⊢
  by_cases hdisabled :
      (silencing file).isDisabled (Location.behind file.path front).line r.id = true
  · right
    refine ⟨hdisabled, Nat.lt_of_le_of_ne hle ?_⟩
    intro hsame
    rw [hsame, henabled] at hdisabled
    exact absurd hdisabled (by decide)
  · left
    obtain ⟨root, container, d, kind, htree, hp, hkind, hreported⟩ := h.reported
    have hdetected := Rule.mem_detectAll_iff.mpr ⟨container, d, kind, hp, hkind, hreported⟩
    have hviolation : (r.violation? file (silencing file) detected).value =
        some ⟨r.id, r.description.name, r.severity, r.message file detected,
          .behind file.path front⟩ := by
      simp [Rule.violation?, hlocate, hdisabled]
    have hmem : (⟨r.id, r.description.name, r.severity, r.message file detected,
        .behind file.path front⟩ : Violation) ∈ (linter.lint file).value := by
      rw [value_lint_of_tree htree, List.mem_flatMap]
      exact ⟨r, List.mem_of_getElem? h.rule_eq,
        List.mem_filterMap.mpr ⟨detected, hdetected, hviolation⟩⟩
    exact ⟨_, hmem, rfl, rfl⟩

end Edits

/-- **Corrections and violations.**  Whatever the text, the tree and the rules, every
correction comes from a span that its rule reports of a declaration.  On the line on
which it begins the rule is not silenced.  Either lint reports a violation of the rule
where the span begins, or the rule is silenced on the first line of the span and the
correction begins on a later one. -/
theorem corrections_reported (linter : Linter) (file : SourceFile) :
    (∀ c ∈ (linter.corrections file).value, ∃ r detected, linter.Edits file r detected c) ∧
      ∀ c r detected, linter.Edits file r detected c →
        c.ruleId = r.id ∧ (silencing file).isDisabled c.location.line r.id = false ∧
          let start := Location.behind file.path (file.text.before detected)
          (∃ v ∈ (linter.lint file).value, v.ruleId = r.id ∧ v.location = start) ∨
            (silencing file).isDisabled start.line r.id = true ∧
              start.line < c.location.line := by
  refine ⟨fun c hc => mem_corrections_iff_edits.mp hc, ?_⟩
  intro c r detected hedits
  obtain ⟨fix, -, hmade⟩ := hedits.made
  obtain ⟨-, -, -, henabled, hid, -⟩ := Rule.correction?_eq_some hmade
  exact ⟨hid, henabled, hedits.mem_lint_or_later⟩

/-- A struct with one property, whose attribute stands on a silenced line and whose
`let` stands on the next one. -/
def attributeAbove : SourceFile :=
  .withTree none "struct S \x7b\n  @A // structlint:disable:this all\n  let a: Int\n\x7d"
    { range := some ⟨0, 61⟩
      children :=
        [{ kind := some .structType
           range := some ⟨0, 61⟩
           bodyLength := some 50
           children := [{ kind := some .varInstance, range := some ⟨13, 46⟩ }] }] }

/-- The property is reported as a whole. -/
theorem detected_attributeAbove {root : Declaration} (htree : attributeAbove.tree = .ok root) :
    (RuntimeLet.rule.detectAll attributeAbove root).value = [⟨13, 46⟩] := by
  obtain rfl := Except.ok.inj htree
  have hslice : attributeAbove.text.sliceBytes ⟨13, 46⟩ =
      .ok "@A // structlint:disable:this all\n  let a: Int" := by
    with_unfolding_all rfl
  have hlet : RuntimeLet.isRuntimeLet "@A // structlint:disable:this all\n  let a: Int" = true := by
    have hoffset : letOffset? "@A // structlint:disable:this all\n  let a: Int" = some 36 := by
      decide +kernel
    rw [RuntimeLet.isRuntimeLet, hoffset]
    simp
  rw [Rule.detectAll, Declaration.value_visitAll]
  simp [Declaration.walk, RuntimeLet.rule, RuntimeLet.detect, RuntimeLet.isCandidate,
    DeclarationKind.isValueType, hslice, hlet]

theorem silencing_attributeAbove : silencing attributeAbove = { lines := [(2, .all)] } := by
  decide +kernel

theorem value_corrections_attributeAbove :
    ((Linter.mk [RuntimeLet.rule]).corrections attributeAbove).value =
      [⟨"discouraged_struct_runtime_let", 0, ⟨49, 3⟩, "var", ⟨none, 3, 3, 49⟩⟩] := by
  obtain ⟨root, htree⟩ : ∃ root, attributeAbove.tree = .ok root := ⟨_, rfl⟩
  rw [value_corrections_of_tree htree, List.zipIdx_singleton, List.flatMap_singleton,
    Rule.value_corrections rfl, detected_attributeAbove htree, silencing_attributeAbove]
  decide +kernel

/-- A span that is silenced on its first line is corrected on its second, where the
`let` stands: nothing is reported, and still the `let` is replaced. -/
theorem corrections_silenced_above :
    ((Linter.mk [RuntimeLet.rule]).lint attributeAbove).value = [] ∧
      ((Linter.mk [RuntimeLet.rule]).corrections attributeAbove).value =
        [⟨"discouraged_struct_runtime_let", 0, ⟨49, 3⟩, "var", ⟨none, 3, 3, 49⟩⟩] := by
  obtain ⟨root, htree⟩ : ∃ root, attributeAbove.tree = .ok root := ⟨_, rfl⟩
  refine ⟨?_, value_corrections_attributeAbove⟩
  rw [value_lint_of_tree htree, List.flatMap_singleton, detected_attributeAbove htree,
    silencing_attributeAbove]
  decide +kernel

/-- The `let` below the silenced line is corrected on its own line, the third. -/
theorem corrections_reported_below :
    ∃ r detected,
      (Linter.mk [RuntimeLet.rule]).Edits attributeAbove r detected
        ⟨"discouraged_struct_runtime_let", 0, ⟨49, 3⟩, "var", ⟨none, 3, 3, 49⟩⟩ ∧
      (silencing attributeAbove).isDisabled 3 r.id = false ∧
      ((∃ v ∈ ((Linter.mk [RuntimeLet.rule]).lint attributeAbove).value, v.ruleId = r.id ∧
          v.location = .behind none (attributeAbove.text.before detected)) ∨
        (silencing attributeAbove).isDisabled
            (Location.behind none (attributeAbove.text.before detected)).line r.id = true ∧
          (Location.behind none (attributeAbove.text.before detected)).line < 3) := by
  obtain ⟨hcorrections, hedits⟩ := corrections_reported ⟨[RuntimeLet.rule]⟩ attributeAbove
  obtain ⟨r, detected, h⟩ := hcorrections _ (value_corrections_attributeAbove ▸ List.mem_cons_self)
  exact ⟨r, detected, h, (hedits _ r detected h).2⟩

/-- **Corrections stay inside what was reported.**  Whatever the text, the tree and the
rules, a correction that is made replaces bytes inside a span that its own rule reported
of a declaration.  The characters outside of all corrections made stay as they are and in
the same order: the corrected text is woven from the same stretches as the original one,
with the replacements in place of what is replaced. -/
theorem correct_frame (linter : Linter) (file : SourceFile) :
    let corrected := (linter.correct file).value
    (∀ c ∈ corrected.applied, ∃ r detected part, linter.Edits file r detected c ∧
        detected.contains part = true ∧ file.text.toByteRange c.range = .ok part) ∧
      (file.text.outside corrected.applied).Sublist corrected.contents.toList ∧
      ∃ kept : List (List Char), kept.length = corrected.applied.length + 1 ∧
        kept.flatten = file.text.outside corrected.applied ∧
        weave kept (corrected.applied.map fun c => (file.text.slice c.range).toList) =
          file.text.chars ∧
        weave kept (corrected.applied.map fun c => c.replacement.toList) =
          corrected.contents.toList := by
  intro corrected
  obtain ⟨hlength, houtside, horiginal, hcontents, hsublist⟩ :=
    CorrectedText.ofCorrections_frame file.text (linter.corrections file).value
  refine ⟨?_, hsublist, CorrectedText.kept file.text corrected.applied, hlength, houtside,
    horiginal, hcontents⟩
  intro c hc
  obtain ⟨r, detected, h⟩ := mem_corrections_iff_edits.mp (mem_corrections_of_mem_applied hc)
  obtain ⟨part, hcontains, hpart⟩ := h.exists_part
  exact ⟨r, detected, part, h, hcontains, hpart⟩

/-- The `let` below the silenced line is made `var` inside the span that was reported, and
the rest of the text stays. -/
theorem correct_frame_below :
    ((Linter.mk [RuntimeLet.rule]).correct attributeAbove).value.applied =
        [⟨"discouraged_struct_runtime_let", 0, ⟨49, 3⟩, "var", ⟨none, 3, 3, 49⟩⟩] ∧
      ∃ r detected part,
        (Linter.mk [RuntimeLet.rule]).Edits attributeAbove r detected
          ⟨"discouraged_struct_runtime_let", 0, ⟨49, 3⟩, "var", ⟨none, 3, 3, 49⟩⟩ ∧
        detected.contains part = true ∧ attributeAbove.text.toByteRange ⟨49, 3⟩ = .ok part := by
  have happlied : ((Linter.mk [RuntimeLet.rule]).correct attributeAbove).value.applied =
      [⟨"discouraged_struct_runtime_let", 0, ⟨49, 3⟩, "var", ⟨none, 3, 3, 49⟩⟩] := by
    have hcorrect : ((Linter.mk [RuntimeLet.rule]).correct attributeAbove).value =
        (CorrectedText.ofCorrections attributeAbove.text
          ((Linter.mk [RuntimeLet.rule]).corrections attributeAbove).value).value := rfl
    have hinside : attributeAbove.text.toByteRange ⟨49, 3⟩ = .ok ⟨49, 3⟩ := by
      with_unfolding_all rfl
    rw [hcorrect, value_corrections_attributeAbove,
      CorrectedText.ofCorrections_of_apart (by simpa using ⟨_, hinside⟩)
        (List.pairwise_singleton _ _)]
  refine ⟨happlied, ?_⟩
  obtain ⟨hparts, -⟩ := correct_frame ⟨[RuntimeLet.rule]⟩ attributeAbove
  exact hparts _ (happlied ▸ List.mem_cons_self)

end Linter

end DeclLint
