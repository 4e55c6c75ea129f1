import DeclLint.Proofs.Directive.LineEnding
import DeclLint.Proofs.Linter.Agreement
import DeclLint.Proofs.Outline.LineEnding

/-!
# The rule does not look at line endings

Of a text with carriage returns the rule against runtime `let`s reports the properties that
it reports of the text without them.  The text of a property is introduced by the same word
and gives a value in both, so the same spans are reported, moved; the same lines are
silenced; and each correction puts `var` for the `let` behind the same characters.

* `RuntimeLet.unsilenced_withCrlf` — what is reported and not silenced;
* `CorrectedText.spliceAll_crlf` — how it is corrected;
* `Linter.line_endings_agree` — all that is seen of a run.
-/

namespace DeclLint

/-- The text of a file that was read. -/
theorem SourceFile.text_scanned_eq (path : Option String) (source : String) :
    (scanned path source).text = ⟨source.toList⟩ := by
  rw [text_scanned]
  rfl

theorem SourceFile.text_scanned_withCrlf (path : Option String) (source : String) :
    (scanned path (withCrlf source)).text = ⟨crlf source.toList⟩ := by
  rw [text_scanned_eq, toList_withCrlf]

namespace RuntimeLet

variable {source : String} {root root' : Declaration}

/-- Whether the text of a property is one of a `let` without value does not depend on its
line endings. -/
theorem isRuntimeLet_crlf {word rest : List Char} (hword : word ∈ introducerWords)
    (hends : ∀ c ∈ rest.head?, isWordChar c = false) :
    isRuntimeLet (String.ofList (crlf (word ++ rest))) =
      isRuntimeLet (String.ofList (word ++ rest)) := by
  have hends' : ∀ c ∈ (crlf rest).head?, isWordChar c = false := by
    intro c hc
    cases rest with
    | nil => simp at hc
    | cons d rest =>
        by_cases hd : d = '\n'
        · obtain rfl : '\r' = c := by simpa [hd] using hc
          decide
        · obtain rfl : d = c := by simpa [hd] using hc
          exact hends d rfl
  have hvalue : '=' ∈ crlf rest ↔ '=' ∈ rest := mem_crlf_iff (by decide)
  simp only [introducerWords, List.mem_cons, List.not_mem_nil, or_false] at hword
  unfold isRuntimeLet
  rcases hword with rfl | rfl
  · have hlet : crlf (['l', 'e', 't'] ++ rest) = ['l', 'e', 't'] ++ crlf rest := by
      rw [crlf_append, crlf_of_not_mem (by decide)]
    rw [hlet, letOffset?_let hends, letOffset?_let hends']
    simp [hvalue]
  · have hvar : crlf (['v', 'a', 'r'] ++ rest) = ['v', 'a', 'r'] ++ crlf rest := by
      rw [crlf_append, crlf_of_not_mem (by decide)]
    rw [hvar, letOffset?_var hends, letOffset?_var hends']
    rfl

/-- A declaration elsewhere may break the rule if it may where it is. -/
theorem isCandidate_relocated {move : Nat → Nat} {p p' : Declaration.Pending}
    (h : Declaration.Pending.Relocated move p p') (kind : DeclarationKind) :
    isCandidate kind p'.2 p'.1 = isCandidate kind p.2 p.1 := by
  obtain ⟨container, d⟩ := p
  obtain ⟨container', d'⟩ := p'
  obtain ⟨hcontainer, hd⟩ := h
  dsimp only at hcontainer hd
  have hkind : container'.bind Declaration.kind = container.bind Declaration.kind := by
    cases hcontainer with
    | none => rfl
    | some houter =>
        cases houter
        rfl
  unfold isCandidate
  rw [hkind]
  cases hd
  simp

/-- **One declaration.**  What stands before it if it is reported is the same, up to line
endings. -/
theorem detectAt_relocated {path : Option String} {container container' : Option Declaration}
    {d d' : Declaration} (h : declarationTree source = .ok root)
    (hfits : (withCrlf source).utf8ByteSize ≤ maxOffset) (hp : (container, d) ∈ root.walk none)
    (hmoved : Declaration.Pending.Relocated (crlfOffset source.toList) (container, d)
      (container', d')) :
    (detectAt rule (.scanned path (withCrlf source)) container' d').value.map
        (Text.before ⟨crlf source.toList⟩) =
      ((detectAt rule (.scanned path source) container d).value.map
        (Text.before ⟨source.toList⟩)).map crlf := by
  obtain ⟨pieces, -, hread⟩ := SourceFile.exists_readFrom h path
  have hrule : IsCopy rule := ⟨_, rfl⟩
  have hcandidates : ∀ kind, isCandidate kind d' container' = isCandidate kind d container :=
    isCandidate_relocated hmoved
  have hkinds : d'.kind = d.kind := hmoved.2.kind_eq
  rcases isCandidate_cases d container with ⟨kind, hkind, hcandidate⟩ | hnone
  · obtain ⟨range, hrange, hc⟩ := exists_candidate hread hp hkind hcandidate
    obtain ⟨word, hword, -, -, rest, -, -, hoccupies, hends⟩ := hc.introduced hread
    obtain ⟨start, stop, hbetween, hrange'⟩ := hmoved.2.exists_range
    obtain rfl := Option.some.inj (hbetween.symm.trans hrange)
    have hne : word ++ rest ≠ [] := by
      intro hnil
      obtain ⟨rfl, -⟩ := List.append_eq_nil_iff.mp hnil
      simp [introducerWords] at hword
    have hsize : utf8Size (crlf source.toList) ≤ maxOffset := by
      rwa [withCrlf, utf8ByteSize_ofList] at hfits
    rw [SourceFile.text_scanned_eq] at hoccupies
    have hslice := Text.sliceBytes_of_occupies hoccupies
      (Nat.le_trans (utf8Size_le_crlf source.toList) hsize)
    have hslice' := @Text.sliceBytes_of_occupies ⟨crlf source.toList⟩ _ _ (hoccupies.moved hne) hsize
    rw [← SourceFile.text_scanned_eq path] at hslice
    rw [← SourceFile.text_scanned_withCrlf path] at hslice'
    rw [detectAt_of_isCandidate hrule hkind hcandidate hrange hslice,
      detectAt_of_isCandidate hrule (hkinds.trans hkind) ((hcandidates kind).trans hcandidate)
        hrange' hslice', isRuntimeLet_crlf hword hends]
    cases isRuntimeLet (String.ofList (word ++ rest)) with
    | true => simp [hoccupies.before_crlf hne]
    | false => rfl
  · have hnone' : ∀ kind, d'.kind = some kind → isCandidate kind d' container' = false := by
      intro kind hkind
      rw [hcandidates]
      exact hnone kind (hkinds.symm.trans hkind)
    rw [detectAt_of_not_isCandidate hrule hnone, detectAt_of_not_isCandidate hrule hnone']
    rfl

/-- **What is reported.**  Before the spans that are reported and not silenced stands the
same, up to line endings. -/
theorem unsilenced_withCrlf (h : declarationTree source = .ok root)
    (hfree : NoEscapedBreak source.toList) (hmoved : root.Relocated (crlfOffset source.toList) root')
    (hfits : (withCrlf source).utf8ByteSize ≤ maxOffset) (path : Option String) :
    unsilenced (.scanned path (withCrlf source)) root' =
      (unsilenced (.scanned path source) root).map crlf := by
  have hsilencing : Linter.silencing (.scanned path (withCrlf source)) =
      Linter.silencing (.scanned path source) := by
    unfold Linter.silencing
    rw [SourceFile.text_scanned, SourceFile.text_scanned, Text.contents_ofString,
      Text.contents_ofString, Silencing.ofSource_withCrlf hfree]
  have hbefore : ((rule.detectAll (.scanned path (withCrlf source)) root').value.map
      (Text.before ⟨crlf source.toList⟩)) =
        ((rule.detectAll (.scanned path source) root).value.map
          (Text.before ⟨source.toList⟩)).map crlf := by
    have hwalks := hmoved.walk Option.Rel.none
    have hpairs := (List.forall₂_and_left _ _).mpr ⟨fun p hp => hp, hwalks⟩
    rw [detectAll_eq, detectAll_eq, Declaration.value_visitAll, Declaration.value_visitAll,
      List.map_flatMap, List.map_flatMap, List.map_flatMap]
    refine Eq.symm (List.forall₂_eq_eq_eq ▸ List.rel_flatMap hpairs ?_)
    rintro ⟨container, d⟩ ⟨container', d'⟩ ⟨hp, hpair⟩
    rw [List.forall₂_eq_eq_eq]
    exact (detectAt_relocated h hfits hp hpair).symm
  unfold unsilenced
  rw [SourceFile.text_scanned_withCrlf, SourceFile.text_scanned_eq, hbefore, hsilencing,
    List.filter_map]
  simp [Function.comp_def]

end RuntimeLet

/-- **Corrections.**  To put `var` for some `let`s and carriage returns before the line
breaks comes to the same in either order.  Corrections further on leave the text alone up
to the end of the word that is replaced next. -/
theorem CorrectedText.spliceAll_crlf {source : List Char} {fronts : List (List Char)}
    (path : Option String) (hlet : ∀ front ∈ fronts, front ++ ['l', 'e', 't'] <+: source)
    (hapart : (fronts.map (RuntimeLet.correctionBehind path)).Pairwise Correction.Before) :
    spliceAll ⟨crlf source⟩ ((fronts.map crlf).map (RuntimeLet.correctionBehind path)) =
      ⟨crlf (spliceAll ⟨source⟩ (fronts.map (RuntimeLet.correctionBehind path))).chars⟩ := by
  induction fronts with
  | nil => rfl
  | cons front fronts ih =>
      obtain ⟨hfirst, hrest⟩ := List.pairwise_cons.mp hapart
      obtain ⟨hhere, hothers⟩ := List.forall_mem_cons.mp hlet
      have hstops : ∀ c ∈ fronts.map (RuntimeLet.correctionBehind path),
          c.range.stop ≤ Text.charLength ⟨source⟩ := by
        intro c hc
        obtain ⟨front', hfront', rfl⟩ := List.mem_map.mp hc
        have hinside := (hothers front' hfront').length_le
        rwa [List.length_append] at hinside
      have hstarts : ∀ c ∈ fronts.map (RuntimeLet.correctionBehind path),
          (front ++ ['l', 'e', 't']).length ≤ c.range.location := by
        intro c hc
        rw [List.length_append]
        exact (hfirst c hc).stop_le
      obtain ⟨back, hsplit⟩ : ∃ back,
          (spliceAll ⟨source⟩ (fronts.map (RuntimeLet.correctionBehind path))).chars =
            front ++ ['l', 'e', 't'] ++ back := by
        have hkept := spliceAll_eq_take_append hrest hstops hstarts hhere.length_le
        rw [← List.prefix_iff_eq_take.mp hhere] at hkept
        exact ⟨_, hkept⟩
      have hsplit' := congrArg crlf hsplit
      rw [crlf_append, crlf_append, crlf_of_not_mem (by decide : '\n' ∉ ['l', 'e', 't'])] at hsplit'
      have hvar : crlf (front ++ "var".toList ++ back) =
          crlf front ++ "var".toList ++ crlf back := by
        rw [crlf_append, crlf_append, crlf_of_not_mem (by decide : '\n' ∉ "var".toList)]
      have hsplice := Text.splice_of_chars_eq hsplit "var"
      have hsplice' := @Text.splice_of_chars_eq ⟨_⟩ _ _ _ hsplit' "var"
      rw [← hvar] at hsplice'
      rw [List.map_cons, List.map_cons, List.map_cons, spliceAll_cons, spliceAll_cons,
        ih hothers hrest]
      exact hsplice'.trans (congrArg (fun t : Text => Text.mk (crlf t.chars)) hsplice.symm)

/-- A place of a text with carriage returns has another offset and nothing else. -/
theorem Location.behind_crlf (path : Option String) (front : List Char) :
    behind path (crlf front) =
      { behind path front with
        offset := (behind path front).offset + ((behind path front).line - 1) } := by
  have hline : (behind path front).line = 1 + lineBreaks front := rfl
  rw [hline, Nat.add_sub_cancel_left]
  unfold behind
  rw [LinePosition.behind_crlf, length_crlf]

namespace Linter

section Trees

variable {source : String} {root root' : Declaration} (h : declarationTree source = .ok root)
  (h' : declarationTree (withCrlf source) = .ok root') (hfree : NoEscapedBreak source.toList)
  (hmoved : root.Relocated (crlfOffset source.toList) root')
  (hfits : (withCrlf source).utf8ByteSize ≤ maxOffset)
include h h' hfree hmoved hfits

/-- **Violations.**  They are the same, but for their offsets. -/
theorem value_lint_withCrlf (path : Option String) (severity : Severity) :
    ((runtimeLet severity).lint (.scanned path (withCrlf source))).value =
      ((runtimeLet severity).lint (.scanned path source)).value.map fun v =>
        { v with location :=
          { v.location with offset := v.location.offset + (v.location.line - 1) } } := by
  have hreported := RuntimeLet.unsilenced_withCrlf h hfree hmoved hfits path
  rw [value_lint h, value_lint h', hreported, List.map_map, List.map_map]
  refine List.map_congr_left fun front _ => ?_
  simp only [Function.comp_apply, RuntimeLet.violationBehind, Location.behind_crlf]

/-- **The corrected text.**  It is the corrected text with carriage returns. -/
theorem contents_correct_withCrlf (path : Option String) (severity : Severity) :
    ((runtimeLet severity).correct (.scanned path (withCrlf source))).value.contents =
      withCrlf ((runtimeLet severity).correct (.scanned path source)).value.contents := by
  obtain ⟨pieces, -, hread⟩ := SourceFile.exists_readFrom h path
  have hlet : ∀ front ∈ RuntimeLet.unsilenced (.scanned path source) root,
      front ++ ['l', 'e', 't'] <+: source.toList := by
    intro front hfront
    obtain ⟨_, lead, _, rest, after, hfound, rfl⟩ :=
      RuntimeLet.exists_reported_of_mem_unsilenced hread hfront
    have hchars := hfound.chars_split
    rw [SourceFile.text_scanned_eq] at hchars
    exact ⟨_, hchars.symm⟩
  have hsplice := CorrectedText.spliceAll_crlf path hlet
    (RuntimeLet.pairwise_before_correctionBehind hread path)
  have htext : Text.ofString (withCrlf source) = ⟨crlf source.toList⟩ := by
    rw [Text.ofString, toList_withCrlf]
  rw [value_correct h, value_correct h',
    RuntimeLet.unsilenced_withCrlf h hfree hmoved hfits path, htext, hsplice]
  unfold withCrlf Text.contents
  rw [String.toList_ofList]
  rfl

end Trees

variable {source : String}

/-- **Line endings make no difference.**  Let no line break of a text stand right behind a
backslash, and put a carriage return before every one.  The new text has a tree exactly if
the text has one, and the same rules are silent on the same lines.  Where its offsets fit a
word, the rule reports the same of both, in the same order, with other offsets only: every
line before a place adds one.  And the new text is corrected to the corrected text with
carriage returns. -/
theorem line_endings_agree (hfree : NoEscapedBreak source.toList) (path : Option String)
    (severity : Severity) :
    ((∃ root, declarationTree (withCrlf source) = .ok root) ↔
        ∃ root, declarationTree source = .ok root) ∧
      (∀ line rule, (Silencing.ofSource (withCrlf source)).value.isDisabled line rule =
        (Silencing.ofSource source).value.isDisabled line rule) ∧
      ((withCrlf source).utf8ByteSize ≤ maxOffset →
        ((runtimeLet severity).lint (.scanned path (withCrlf source))).value =
            ((runtimeLet severity).lint (.scanned path source)).value.map (fun v =>
              { v with location :=
                { v.location with offset := v.location.offset + (v.location.line - 1) } }) ∧
          ((runtimeLet severity).correct (.scanned path (withCrlf source))).value.contents =
            withCrlf ((runtimeLet severity).correct (.scanned path source)).value.contents) := by
  rcases declarationTree_withCrlf_cases hfree with ⟨root, root', h, h', hmoved⟩ | ⟨e, e', h, h'⟩
  · refine ⟨⟨fun _ => ⟨root, h⟩, fun _ => ⟨root', h'⟩⟩, ?_, ?_⟩
    · intro line rule
      rw [Silencing.ofSource_withCrlf hfree]
    · intro hfits
      exact ⟨value_lint_withCrlf h h' hfree hmoved hfits path severity,
        contents_correct_withCrlf h h' hfree hmoved hfits path severity⟩
  · have htree := (SourceFile.tree_scanned path source).trans h
    have htree' := (SourceFile.tree_scanned path (withCrlf source)).trans h'
    refine ⟨by simp [h, h'], ?_, fun _ => ⟨?_, ?_⟩⟩
    · intro line rule
      rw [Silencing.ofSource_withCrlf hfree]
    · rw [value_lint_of_error htree, value_lint_of_error htree']
      rfl
    · rw [contents_correct_of_error htree, contents_correct_of_error htree',
        SourceFile.text_scanned, SourceFile.text_scanned, Text.contents_ofString,
        Text.contents_ofString]

/-- An enum with a silenced `let` behind another one, with carriage returns. -/
theorem line_endings_agree_enum :
    NoEscapedBreak "enum E \x7b\n let a: É\n let b: É // structlint:disable:this all\n\x7d".toList ∧
      (withCrlf "enum E \x7b\n let a: É\n let b: É // structlint:disable:this all\n\x7d").utf8ByteSize ≤
        maxOffset ∧
      (∃ root, declarationTree (withCrlf
        "enum E \x7b\n let a: É\n let b: É // structlint:disable:this all\n\x7d") = .ok root) ∧
      ((runtimeLet .error).correct (.scanned none (withCrlf
        "enum E \x7b\n let a: É\n let b: É // structlint:disable:this all\n\x7d"))).value.contents =
        withCrlf ((runtimeLet .error).correct (.scanned none
          "enum E \x7b\n let a: É\n let b: É // structlint:disable:this all\n\x7d")).value.contents := by
  have hfree : NoEscapedBreak
      "enum E \x7b\n let a: É\n let b: É // structlint:disable:this all\n\x7d".toList :=
    .of_not_mem (by decide +kernel)
  have hfits : (withCrlf
      "enum E \x7b\n let a: É\n let b: É // structlint:disable:this all\n\x7d").utf8ByteSize ≤ maxOffset := by
    decide +kernel
  have htree : declarationTree
      "enum E \x7b\n let a: É\n let b: É // structlint:disable:this all\n\x7d" = .ok
        { range := some ⟨0, 63⟩
          children :=
            [{ kind := some .enumType
               range := some ⟨0, 63⟩
               bodyLength := some 54
               children :=
                 [{ kind := some .varInstance, range := some ⟨10, 9⟩ },
                   { kind := some .varInstance, range := some ⟨21, 9⟩ }] }] } := by
    with_unfolding_all rfl
  obtain ⟨htrees, -, hrun⟩ := line_endings_agree hfree none .error
  exact ⟨hfree, hfits, htrees.mpr ⟨_, htree⟩, (hrun hfits).2⟩

end Linter

end DeclLint
