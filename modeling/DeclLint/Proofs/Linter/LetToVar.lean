import DeclLint.Proofs.Linter.Origin

/-!
# Only `let` becomes `var`

A tree may come from anywhere: its spans may overlap, repeat, lie inside of characters
or outside of the text.  Whatever it is, copies of the rule against runtime `let`s put
`var` for `let` and do nothing else.  Both words have one shape, so the corrected text
has the bytes, the characters and the lines of the original.

* `Text.lineStarts` — where the lines of a text begin;
* `Text.contains_toCharRange` — a part of a span of bytes is one in characters;
* `Linter.Edits.letToVar` — what the fix makes of a reported span;
* `Linter.correct_letToVar` — what correcting does to any text with any tree.
-/

namespace DeclLint

theorem getLast?_shapes_eq_iff {cs : List Char} {d : Char} (hd : d.isAlpha = false) :
    (shapes cs).getLast? = some d ↔ cs.getLast? = some d := by
  rw [← List.head?_reverse, ← shapes_reverse, head?_shapes_eq_iff hd, List.head?_reverse]

/-- Positions are counted alike in runs of one shape. -/
theorem LinePosition.foldl_advance_shapes (p : LinePosition) (cs : List Char) :
    (shapes cs).foldl advance p = cs.foldl advance p := by
  induction cs generalizing p with
  | nil => rfl
  | cons c cs ih =>
      have hadvance : p.advance (shape c) = p.advance c := by
        simp only [advance, shape_eq_iff (d := '\n') rfl]
      rw [shapes_cons, List.foldl_cons, List.foldl_cons, hadvance, ih]

namespace Text

/-- The places where lines begin, in bytes and in characters: the start of the text and
the place behind each line break. -/
def lineStarts (t : Text) : List (Nat × Nat) :=
  ((List.range (t.charLength + 1)).filter fun n =>
    decide (n = 0) || (t.chars.take n).getLast? == some '\n').map fun n =>
      (utf8Size (t.chars.take n), n)

variable {t u : Text}

/-- Texts of one shape have the same bytes and characters. -/
theorem lengths_eq_of_shapes (h : shapes t.chars = shapes u.chars) :
    t.byteLength = u.byteLength ∧ t.charLength = u.charLength := by
  constructor
  · rw [byteLength, byteLength, ← utf8Size_shapes, h, utf8Size_shapes]
  · rw [charLength, charLength, ← length_shapes, h, length_shapes]

theorem take_shapes_eq (h : shapes t.chars = shapes u.chars) (n : Nat) :
    shapes (t.chars.take n) = shapes (u.chars.take n) := by
  unfold shapes at h ⊢
  rw [List.map_take, List.map_take, h]

/-- **Lines of one shape.**  In texts of one shape the lines begin at the same places. -/
theorem lineStarts_eq_of_shapes (h : shapes t.chars = shapes u.chars) :
    t.lineStarts = u.lineStarts := by
  have hsize : ∀ n, utf8Size (t.chars.take n) = utf8Size (u.chars.take n) := by
    intro n
    rw [← utf8Size_shapes, take_shapes_eq h, utf8Size_shapes]
  have hlast : ∀ n, ((t.chars.take n).getLast? == some '\n') =
      ((u.chars.take n).getLast? == some '\n') := by
    intro n
    rw [Bool.eq_iff_iff, beq_iff_eq, beq_iff_eq, ← getLast?_shapes_eq_iff (by decide),
      take_shapes_eq h, getLast?_shapes_eq_iff (by decide)]
  simp only [lineStarts, (lengths_eq_of_shapes h).2, hsize, hlast]

/-- In texts of one shape every offset has the same line and column. -/
theorem lineAndCharacter?_eq_of_shapes (h : shapes t.chars = shapes u.chars) (offset : Nat) :
    t.lineAndCharacter? offset = u.lineAndCharacter? offset := by
  rw [lineAndCharacter?, lineAndCharacter?, (lengths_eq_of_shapes h).2,
    ← LinePosition.foldl_advance_shapes, take_shapes_eq h, LinePosition.foldl_advance_shapes]

/-- **Parts in bytes and in characters.**  A part of a span of bytes covers a part of the
characters that the span covers. -/
theorem contains_toCharRange {t : Text} {whole part : ByteRange} {chars range : CharRange}
    (hcontains : whole.contains part = true) (hwhole : t.toCharRange whole = .ok chars)
    (hpart : t.toCharRange part = .ok range) :
    chars.location ≤ range.location ∧ range.stop ≤ chars.stop := by
  obtain ⟨hlocation, hstop, -⟩ := ByteRange.contains_eq_true_iff.mp hcontains
  obtain ⟨front, mid, back, htext, rfl, rfl, -⟩ := toCharRange_eq_ok_iff.mp hwhole
  obtain ⟨front', mid', back', htext', rfl, rfl, -⟩ := toCharRange_eq_ok_iff.mp hpart
  have hleads : ∀ {xs ys zs : List Char}, t.chars = xs ++ ys ++ zs → xs <+: t.chars := by
    intro xs ys zs h
    exact ⟨ys ++ zs, by rw [h, List.append_assoc]⟩
  have hstart := prefix_of_utf8Size_le (hleads htext) (hleads htext') hlocation
  have hend : front' ++ mid' <+: front ++ mid := by
    refine prefix_of_utf8Size_le ⟨back', htext'.symm⟩ ⟨back, htext.symm⟩ ?_
    rw [utf8Size_append, utf8Size_append]
    exact hstop
  refine ⟨hstart.length_le, ?_⟩
  have hle := hend.length_le
  rw [List.length_append, List.length_append] at hle
  exact hle

end Text

/-- What is woven from stretches of one shape has one shape. -/
theorem shapes_weave (kept edits : List (List Char)) :
    shapes (weave kept edits) = weave (kept.map shapes) (edits.map shapes) := by
  induction edits generalizing kept with
  | nil =>
      have hflatten : shapes kept.flatten = (kept.map shapes).flatten := List.map_flatten
      cases kept <;> exact hflatten
  | cons edit edits ih =>
      cases kept with
      | nil => rfl
      | cons first others => simp [weave, ih]

namespace RuntimeLet

/-- What is reported of a declaration is the whole of it. -/
theorem range_eq_of_mem_detect {file : SourceFile} {kind : DeclarationKind} {d : Declaration}
    {container : Option Declaration} {range : ByteRange}
    (h : range ∈ (detect file kind d container).value) : d.range = some range := by
  unfold detect at h
  split at h
  next =>
    cases hrange : d.range with
    | none => simp [hrange] at h
    | some whole =>
        simp only [hrange] at h
        split at h
        next =>
          split at h
          next => rw [List.mem_singleton.mp h]
          next => simp at h
        next => simp at h
  next => simp at h

/-- A correction that puts `var` for a `let` inside the span of a declaration that the
rule reports. -/
structure LetToVar (file : SourceFile) (c : Correction) : Prop where
  length_eq : c.range.length = 3
  replaced : file.text.slice c.range = "let"
  replacement_eq : c.replacement = "var"
  inside : ∃ root container d kind detected chars, file.tree = .ok root ∧
    (container, d) ∈ root.walk none ∧ d.kind = some kind ∧ d.range = some detected ∧
    detected ∈ (detect file kind d container).value ∧
    file.text.toCharRange detected = .ok chars ∧
    chars.location ≤ c.range.location ∧ c.range.stop ≤ chars.stop

end RuntimeLet

namespace Linter

variable {linter : Linter} {file : SourceFile} {r : Rule} {detected : ByteRange} {c : Correction}

/-- **What the fix makes of a reported span.**  It puts `var` for a `let` inside of it. -/
theorem Edits.letToVar (hr : RuntimeLet.IsCopy r) (h : linter.Edits file r detected c) :
    RuntimeLet.LetToVar file c := by
  obtain ⟨severity, rfl⟩ := hr
  obtain ⟨root, container, d, kind, htree, hwalk, hkind, hreported⟩ := h.reported
  have hrange : d.range = some detected := RuntimeLet.range_eq_of_mem_detect hreported
  obtain ⟨fix, hfix, hmade⟩ := h.made
  obtain rfl : RuntimeLet.fix = fix := Option.some.inj hfix
  obtain ⟨⟨location, hlocate⟩, ⟨part, -, hcontains, hreplacement, hpart⟩, -⟩ :=
    Rule.correction?_eq_some hmade
  -- The part that is replaced is taken up by the three characters of `let`.
  obtain ⟨hvar, hslice⟩ := RuntimeLet.fix_replacement hreplacement
  obtain ⟨hlet, -⟩ := Text.sliceBytes_eq_ok_iff.mp hslice
  obtain ⟨front, mid, back, htext, hbytes, hchars, -⟩ := Text.toCharRange_eq_ok_iff.mp hpart
  obtain rfl : mid = "let".toList := Occupies.unique ⟨front, back, htext, hbytes⟩ hlet
  -- The whole span maps onto the text too, since it was located and its end fits.
  obtain ⟨front', mid', back', htext', hdetected, -⟩ := Rule.value_locate?_eq_some hlocate
  have hwhole : file.text.toCharRange detected = .ok ⟨front'.length, mid'.length⟩ :=
    Text.toCharRange_eq_ok_iff.mpr ⟨front', mid', back', htext', hdetected, rfl,
      (ByteRange.contains_eq_true_iff.mp hcontains).2.2⟩
  have hinside := Text.contains_toCharRange hcontains hwhole hpart
  refine ⟨?_, ?_, hvar, root, container, d, kind, detected, _, htree, hwalk, hkind, hrange,
    hreported, hwhole, hinside⟩
  · rw [hchars]
    rfl
  · rw [hchars, Text.slice_of_chars_eq htext]
    rfl

/-- **Only `let` becomes `var`.**  Whatever the text and the tree, a linter of copies of the
rule against runtime `let`s puts `var` for `let` in spans of three characters that lie
apart, each inside the span of a reported declaration.  All else is kept: the original and
the corrected text are woven from the same stretches, the one with `let` between them and
the other with `var`, and have the same length in bytes and in characters and the same
lines. -/
theorem correct_letToVar (hlinter : linter.OnlyRuntimeLet) (file : SourceFile) :
    let corrected := (linter.correct file).value
    let result := Text.ofString corrected.contents
    let kept := CorrectedText.kept file.text corrected.applied
    (∀ c ∈ corrected.applied, RuntimeLet.LetToVar file c) ∧
      corrected.applied.Pairwise (fun a b => a.range.stop ≤ b.range.location) ∧
      weave kept (corrected.applied.map fun _ => "let".toList) = file.text.chars ∧
      weave kept (corrected.applied.map fun _ => "var".toList) = result.chars ∧
      result.byteLength = file.text.byteLength ∧ result.charLength = file.text.charLength ∧
      result.lineStarts = file.text.lineStarts ∧
      ∀ offset, result.lineAndCharacter? offset = file.text.lineAndCharacter? offset := by
  intro corrected result kept
  have hletToVar : ∀ c ∈ corrected.applied, RuntimeLet.LetToVar file c := by
    intro c hc
    obtain ⟨r, detected, hedits⟩ :=
      mem_corrections_iff_edits.mp (mem_corrections_of_mem_applied hc)
    exact hedits.letToVar (hlinter r (List.mem_of_getElem? hedits.rule_eq))
  have hapart : corrected.applied.Pairwise (fun a b => a.range.stop ≤ b.range.location) :=
    (CorrectedText.applied_apart file.text (linter.corrections file).value).imp
      Correction.Before.stop_le
  obtain ⟨-, -, hreplaced, hreplacements, -⟩ :=
    CorrectedText.ofCorrections_frame file.text (linter.corrections file).value
  have horiginal : weave kept (corrected.applied.map fun _ => "let".toList) =
      file.text.chars := by
    refine Eq.trans (congrArg (weave kept) (List.map_congr_left fun c hc => ?_)) hreplaced
    rw [(hletToVar c hc).replaced]
  have hresult : weave kept (corrected.applied.map fun _ => "var".toList) = result.chars := by
    refine Eq.trans (congrArg (weave kept) (List.map_congr_left fun c hc => ?_)) hreplacements
    rw [(hletToVar c hc).replacement_eq]
  have hshapes : shapes result.chars = shapes file.text.chars := by
    rw [← horiginal, ← hresult, shapes_weave, shapes_weave, List.map_map, List.map_map]
    rfl
  obtain ⟨hbytes, hchars⟩ := Text.lengths_eq_of_shapes hshapes
  exact ⟨hletToVar, hapart, horiginal, hresult, hbytes, hchars,
    Text.lineStarts_eq_of_shapes hshapes, Text.lineAndCharacter?_eq_of_shapes hshapes⟩

/-- A struct with two properties and a stale tree: one span holds both properties, one
repeats the first property, one begins inside of a character. -/
def staleTree : SourceFile :=
  .withTree none "struct S \x7b\n  let é: Int\n  let b: Int\n\x7d"
    { children :=
        [{ kind := some .structType
           children :=
            [{ kind := some .varInstance, range := some ⟨13, 24⟩ },
              { kind := some .varInstance, range := some ⟨13, 11⟩ },
              { kind := some .varInstance, range := some ⟨27, 10⟩ },
              { kind := some .varInstance, range := some ⟨18, 6⟩ }] }] }

/-- The span that begins inside of a character is passed over. -/
theorem detected_staleTree {root : Declaration} (htree : staleTree.tree = .ok root) :
    (RuntimeLet.rule.detectAll staleTree root).value = [⟨13, 24⟩, ⟨13, 11⟩, ⟨27, 10⟩] := by
  obtain rfl := Except.ok.inj htree
  have hboth : staleTree.text.sliceBytes ⟨13, 24⟩ = .ok "let é: Int\n  let b: Int" := by
    with_unfolding_all rfl
  have hsecond : staleTree.text.sliceBytes ⟨27, 10⟩ = .ok "let b: Int" := by
    with_unfolding_all rfl
  have hfirst : staleTree.text.sliceBytes ⟨13, 11⟩ = .ok "let é: Int" := by
    with_unfolding_all rfl
  have hstale : staleTree.text.sliceBytes ⟨18, 6⟩ = .error (.notCharBoundary 18) := by
    with_unfolding_all rfl
  have hlet : ∀ text ∈ ["let é: Int\n  let b: Int", "let b: Int", "let é: Int"],
      letOffset? text = some 0 := by
    decide +kernel
  rw [Rule.detectAll, Declaration.value_visitAll]
  simp [Declaration.walk, RuntimeLet.rule, RuntimeLet.detect, RuntimeLet.isCandidate,
    DeclarationKind.isValueType, RuntimeLet.isRuntimeLet, hboth, hsecond, hfirst, hstale, hlet]

/-- Two declarations of a stale tree ask for the same edit. -/
theorem value_corrections_staleTree :
    ((Linter.mk [RuntimeLet.rule]).corrections staleTree).value =
      [⟨"discouraged_struct_runtime_let", 0, ⟨13, 3⟩, "var", ⟨none, 2, 3, 13⟩⟩,
        ⟨"discouraged_struct_runtime_let", 0, ⟨13, 3⟩, "var", ⟨none, 2, 3, 13⟩⟩,
        ⟨"discouraged_struct_runtime_let", 0, ⟨26, 3⟩, "var", ⟨none, 3, 3, 26⟩⟩] := by
  obtain ⟨root, htree⟩ : ∃ root, staleTree.tree = .ok root := ⟨_, rfl⟩
  rw [value_corrections_of_tree htree, List.zipIdx_singleton, List.flatMap_singleton,
    Rule.value_corrections rfl, detected_staleTree htree]
  decide +kernel

/-- Each property is corrected once, and no line moves. -/
theorem correct_letToVar_staleTree :
    (Linter.mk [RuntimeLet.rule]).OnlyRuntimeLet ∧
      ((Linter.mk [RuntimeLet.rule]).correct staleTree).value.applied.map (·.range) =
        [⟨13, 3⟩, ⟨26, 3⟩] ∧
      (∀ c ∈ ((Linter.mk [RuntimeLet.rule]).correct staleTree).value.applied,
        RuntimeLet.LetToVar staleTree c) ∧
      (Text.ofString ((Linter.mk [RuntimeLet.rule]).correct staleTree).value.contents).lineStarts =
        [(0, 0), (11, 11), (25, 24), (38, 37)] := by
  have hlinter : (Linter.mk [RuntimeLet.rule]).OnlyRuntimeLet := by
    intro r hr
    exact ⟨r.severity, by rw [List.mem_singleton.mp hr]; rfl⟩
  have happlied : ((Linter.mk [RuntimeLet.rule]).correct staleTree).value.applied.map (·.range) =
      [⟨13, 3⟩, ⟨26, 3⟩] := by
    rw [correct, Logged.value_bind, value_corrections_staleTree, CorrectedText.ofCorrections,
      List.mergeSort_of_pairwise (by decide)]
    decide +kernel
  obtain ⟨hletToVar, -, -, -, -, -, hlines, -⟩ := correct_letToVar hlinter staleTree
  refine ⟨hlinter, happlied, hletToVar, hlines.trans ?_⟩
  decide

end Linter

end DeclLint
