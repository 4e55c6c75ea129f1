import DeclLint.Proofs.Correction.Splice
import DeclLint.Proofs.Outline.Recast
import DeclLint.Proofs.Rule.RuntimeLet

/-!
# Correcting runtime `let`s

A linter whose rules are all copies of the rule against runtime `let`s corrects a
file by recasting some of its `let`s.  The corrected text is read like the file
was, so it has the same declarations in the same places, and the same directives
silence the same lines.  A `let` that is reported in it was reported before and not
corrected.  Since a correction is dropped only for one of the same `let`, it was
silenced, and it still is.

* `Linter.contents_correct` — the corrected text is a recast one;
* `Linter.correct_keeps_tree` — it has the tree and the comments of the file;
* `Linter.isDisabled_of_reported_again` — what is reported in it is silenced;
* `Linter.correct_corrected` — so nothing is left to report or to correct.
-/

namespace DeclLint

/-- Both words begin where pieces do, so corrections of two of them share text only
if they are corrections of one. -/
theorem Correction.Recasts.location_eq_of_conflicts {pieces : List Piece} {a c : Correction}
    (ha : a.Recasts pieces) (hc : c.Recasts pieces) (h : conflicts a c = true) :
    a.range.location = c.range.location := by
  obtain ⟨front, back, hpieces, hrange, -⟩ := ha
  obtain ⟨front', back', hpieces', hrange', -⟩ := hc
  have hfree : ∀ {front front' mid back back' : List Piece},
      front' = front ++ mid → Piece.letWord :: back = mid ++ Piece.letWord :: back' →
        (joinPieces front).length = (joinPieces front').length ∨
          (joinPieces front).length + 3 ≤ (joinPieces front').length := by
    intro front front' mid back back' hfront hmid
    subst hfront
    cases mid with
    | nil => exact Or.inl (by simp)
    | cons p mid =>
        obtain ⟨rfl, -⟩ := List.cons.inj hmid
        right
        simp [Piece.letWord]
  unfold conflicts CharRange.intersects CharRange.stop at h
  rw [hrange, hrange'] at h ⊢
  rcases List.append_eq_append_iff.mp (hpieces.symm.trans hpieces') with
    ⟨mid, hfront, hmid⟩ | ⟨mid, hfront, hmid⟩
  · have hapart := hfree hfront hmid
    grind
  · have hapart := hfree hfront hmid
    grind

/-- Texts of one shape have as many line breaks. -/
theorem lineBreaks_shapes (cs : List Char) : lineBreaks (shapes cs) = lineBreaks cs := by
  induction cs with
  | nil => rfl
  | cons c cs ih =>
      have hbreak : (shape c == '\n') = (c == '\n') := by
        rw [Bool.eq_iff_iff, beq_iff_eq, beq_iff_eq]
        exact shape_eq_iff rfl
      unfold lineBreaks at ih ⊢
      rw [shapes_cons, List.count_cons, List.count_cons, ih, hbreak]

namespace SourceFile

/-- A file whose tree is derived from its text. -/
def scanned (path : Option String) (source : String) : SourceFile :=
  (parse path source declarationTree).value

@[simp] theorem path_scanned (path : Option String) (source : String) :
    (scanned path source).path = path := by
  simp [scanned]

@[simp] theorem text_scanned (path : Option String) (source : String) :
    (scanned path source).text = .ofString source := by
  simp [scanned]

@[simp] theorem tree_scanned (path : Option String) (source : String) :
    (scanned path source).tree = declarationTree source := by
  simp [scanned]

variable {source : String} {root : Declaration}

/-- A file whose text has a tree was read from its pieces. -/
theorem exists_readFrom (h : declarationTree source = .ok root) (path : Option String) :
    ∃ pieces, cut source.toList = .ok pieces ∧ (scanned path source).ReadFrom pieces root := by
  obtain ⟨pieces, hcut, htokens, -⟩ := exists_cut_of_declarationTree h
  refine ⟨pieces, hcut, ?_, htokens, ?_⟩
  · rw [text_scanned]
    exact hcut
  · rw [tree_scanned, h]

/-- A file with a recast text was read from the recast pieces. -/
theorem readFrom_recast {pieces : List Piece} (h : declarationTree source = .ok root)
    (hcut : cut source.toList = .ok pieces) (path : Option String) (starts : List Nat) :
    (scanned path (String.ofList (joinPieces (Piece.recast starts 0 pieces)))).ReadFrom
      (Piece.recast starts 0 pieces) root := by
  have htree := declarationTree_recast hcut starts
  rw [h] at htree
  obtain ⟨pieces', hcut', hread⟩ := exists_readFrom htree path
  rw [String.toList_ofList, cut_recast hcut starts] at hcut'
  obtain rfl := Except.ok.inj hcut'
  exact hread

end SourceFile

namespace RuntimeLet

variable {file again : SourceFile} {pieces front' back' : List Piece} {starts : List Nat}
  {range : ByteRange} {rest' after' : List Char}

/-- **What is reported again was reported.**  A span reported of a recast text was
one of the text itself, and its `let` is none of those recast. -/
theorem Reported.of_recast
    (h : Reported again (Piece.recast starts 0 pieces) range front' back' rest' after')
    (hfile : file.text.chars = joinPieces pieces)
    (hagain : again.text.chars = joinPieces (Piece.recast starts 0 pieces)) :
    ∃ front back rest after, Reported file pieces range front back rest after ∧
      Piece.recast starts 0 front = front' ∧ (joinPieces front).length ∉ starts := by
  obtain ⟨front, back, hpieces, hfront, hnot⟩ := Piece.exists_of_recast_eq h.pieces_eq
  rw [Nat.zero_add] at hnot
  have hlead : shapes (joinPieces front') = shapes (joinPieces front) := by
    rw [← hfront, shapes_joinPieces_recast]
  have hchars : file.text.chars =
      joinPieces front ++ (['l', 'e', 't'] ++ joinPieces back) := by
    rw [hfile, hpieces]
    simp [Piece.letWord]
  have hshapes : shapes again.text.chars = shapes file.text.chars := by
    rw [hagain, hfile, shapes_joinPieces_recast]
  have hback : shapes (joinPieces back) = shapes rest' ++ shapes after' := by
    rw [h.chars_eq, hchars] at hshapes
    simpa [hlead] using hshapes.symm
  obtain ⟨rest, after, hsplit, hrest, hafter⟩ := List.map_eq_append_iff.mp hback
  have hsame : shapes rest = shapes rest' := hrest
  refine ⟨front, back, rest, after, ⟨hpieces, ?_, ?_, h.fits, ?_, ?_⟩, hfront, hnot⟩
  · rw [hchars, hsplit]
    simp
  · rw [h.range_eq, ← utf8Size_shapes (joinPieces front'), hlead, utf8Size_shapes,
      utf8Size_append, ← utf8Size_shapes rest', ← hsame, utf8Size_shapes, ← utf8Size_append]
  · exact head?_isWordChar_of_shapes_eq hsame h.ends
  · rw [← mem_shapes_iff (by decide), hsame, mem_shapes_iff (by decide)]
    exact h.valueless

end RuntimeLet

/-- The corrections of a rule with a fix: what the fix makes of the spans reported. -/
theorem Rule.value_corrections {r : Rule} {fix : Fix} (hfix : r.fix = some fix) (index : Nat)
    (file : SourceFile) (root : Declaration) (silencing : Silencing) :
    (r.corrections index file root silencing).value =
      (r.detectAll file root).value.filterMap fun range =>
        (r.correction? fix index file silencing range).value := by
  unfold Rule.corrections
  rw [hfix, Logged.value_bind, Logged.value_filterMap]

namespace Linter

/-- The rules of a linter are copies of the rule against runtime `let`s. -/
def OnlyRuntimeLet (linter : Linter) : Prop := ∀ r ∈ linter.rules, RuntimeLet.IsCopy r

/-- What the directives of a file silence. -/
def silencing (file : SourceFile) : Silencing := (Silencing.ofSource file.text.contents).value

variable {linter : Linter} {file : SourceFile} {pieces : List Piece} {root : Declaration}
  {c : Correction}

/-- The violations of a file with a tree, rule by rule. -/
theorem value_lint_of_tree (htree : file.tree = .ok root) :
    (linter.lint file).value = linter.rules.flatMap fun r =>
      (r.detectAll file root).value.filterMap fun range =>
        (r.violation? file (silencing file) range).value := by
  unfold lint
  rw [htree]
  simp [silencing, Rule.violations]

/-- The violations of a file without tree: none. -/
theorem value_lint_of_error {e : ParseError} (htree : file.tree = .error e) :
    (linter.lint file).value = [] := by
  unfold lint
  rw [htree]
  rfl

/-- The corrections of a file with a tree, rule by rule. -/
theorem value_corrections_of_tree (htree : file.tree = .ok root) :
    (linter.corrections file).value = linter.rules.zipIdx.flatMap fun p =>
      (p.1.corrections p.2 file root (silencing file)).value := by
  unfold corrections
  rw [htree]
  simp [silencing]

/-- The corrections of a file without tree: none. -/
theorem value_corrections_of_error {e : ParseError} (htree : file.tree = .error e) :
    (linter.corrections file).value = [] := by
  unfold corrections
  rw [htree]
  rfl

/-- The text of a file without tree stays. -/
theorem contents_correct_of_error {e : ParseError} (htree : file.tree = .error e) :
    (linter.correct file).value.contents = file.text.contents := by
  have hnone := @CorrectedText.ofCorrections_of_apart file.text [] (by simp) .nil
  unfold correct
  rw [Logged.value_bind, value_corrections_of_error htree, hnone]
  rfl

/-- What is proposed for a file: a correction for every span that is reported and
not silenced. -/
theorem mem_corrections_iff (hlinter : linter.OnlyRuntimeLet)
    (h : file.ReadFrom pieces root) :
    c ∈ (linter.corrections file).value ↔
      ∃ r index, (r, index) ∈ linter.rules.zipIdx ∧
        ∃ range ∈ (r.detectAll file root).value,
          (r.correction? RuntimeLet.fix index file (silencing file) range).value = some c := by
  have hrule : ∀ r index, (r, index) ∈ linter.rules.zipIdx →
      (r.corrections index file root (silencing file)).value =
        (r.detectAll file root).value.filterMap fun range =>
          (r.correction? RuntimeLet.fix index file (silencing file) range).value := by
    intro r index hmem
    obtain ⟨severity, rfl⟩ := hlinter r (List.fst_mem_of_mem_zipIdx hmem)
    exact Rule.value_corrections rfl index file root _
  rw [value_corrections_of_tree h.tree_eq, List.mem_flatMap]
  constructor
  · rintro ⟨⟨r, index⟩, hmem, hc⟩
    rw [hrule r index hmem, List.mem_filterMap] at hc
    exact ⟨r, index, hmem, hc⟩
  · rintro ⟨r, index, hmem, hc⟩
    refine ⟨(r, index), hmem, ?_⟩
    rw [hrule r index hmem, List.mem_filterMap]
    exact hc

/-- A correction that is proposed puts `var` for a `let` that is reported. -/
theorem exists_reported_of_mem_corrections (hlinter : linter.OnlyRuntimeLet)
    (h : file.ReadFrom pieces root) (hc : c ∈ (linter.corrections file).value) :
    ∃ range front back rest after,
      RuntimeLet.Reported file pieces range front back rest after ∧
        c.range = ⟨(joinPieces front).length, 3⟩ ∧ c.replacement = "var" := by
  obtain ⟨r, index, hmem, range, hrange, hvalue⟩ := (mem_corrections_iff hlinter h).mp hc
  have hr := hlinter r (List.fst_mem_of_mem_zipIdx hmem)
  obtain ⟨-, front, back, rest, after, hreported⟩ :=
    (RuntimeLet.mem_detectAll_iff_reported hr h).mp hrange
  obtain ⟨location, hcorrection⟩ := hreported.value_correction? r index (silencing file)
  rw [hcorrection] at hvalue
  split at hvalue
  next => simp at hvalue
  next =>
    obtain rfl := Option.some.inj hvalue
    exact ⟨range, front, back, rest, after, hreported, rfl, rfl⟩

theorem recasts_of_mem_corrections (hlinter : linter.OnlyRuntimeLet)
    (h : file.ReadFrom pieces root) (hc : c ∈ (linter.corrections file).value) :
    c.Recasts pieces := by
  obtain ⟨range, front, back, rest, after, hreported, hrange, hreplacement⟩ :=
    exists_reported_of_mem_corrections hlinter h hc
  exact ⟨front, back, hreported.pieces_eq, hrange, hreplacement⟩

theorem mem_corrections_of_mem_applied (hc : c ∈ (linter.correct file).value.applied) :
    c ∈ (linter.corrections file).value := by
  have hselection :=
    CorrectedText.ofCorrections_selection file.text (linter.corrections file).value
  exact List.mem_mergeSort.mp (hselection.sublist.subset hc)

/-- **The corrected text is a recast one.** -/
theorem contents_correct (hlinter : linter.OnlyRuntimeLet) (h : file.ReadFrom pieces root) :
    (linter.correct file).value.contents =
      String.ofList (joinPieces (Piece.recast
        (Correction.starts (linter.correct file).value.applied) 0 pieces)) := by
  have hne := (cut_eq_ok_iff.mp h.cut_eq).text_ne_nil
  have happlied : ∀ c ∈ (linter.correct file).value.applied, c.Recasts pieces := by
    intro c hc
    apply recasts_of_mem_corrections hlinter h
    exact mem_corrections_of_mem_applied hc
  have hsplice := CorrectedText.spliceAll_recast hne happlied
  have htext : file.text = ⟨joinPieces pieces⟩ := by
    rw [cut_join h.cut_eq]
  have hcontents :=
    CorrectedText.ofCorrections_contents file.text (linter.corrections file).value
  have hcorrect : (linter.correct file).value =
      (CorrectedText.ofCorrections file.text (linter.corrections file).value).value := rfl
  rw [hcorrect, hcontents, ← hcorrect, htext, hsplice]
  rfl

/-- **Every `let` that is proposed to be corrected is.**  A correction is dropped
only for another one of the same `let`. -/
theorem start_mem_of_mem_corrections (hlinter : linter.OnlyRuntimeLet)
    (h : file.ReadFrom pieces root) (hc : c ∈ (linter.corrections file).value) :
    c.range.location ∈ Correction.starts (linter.correct file).value.applied := by
  have hselection :=
    CorrectedText.ofCorrections_selection file.text (linter.corrections file).value
  have hperm := Correction.select_perm file.text none
    ((linter.corrections file).value.mergeSort Correction.precedes)
  have hsorted : c ∈ (linter.corrections file).value.mergeSort Correction.precedes :=
    List.mem_mergeSort.mpr hc
  rcases List.mem_append.mp (hperm.mem_iff.mpr hsorted) with happlied | hdropped
  · exact List.mem_map.mpr ⟨c, happlied, rfl⟩
  · rcases hselection.cause c hdropped with ⟨e, houtside⟩ | ⟨a, hmem, hconflict⟩
    · obtain ⟨range, front, back, rest, after, hreported, hrange, -⟩ :=
        exists_reported_of_mem_corrections hlinter h hc
      rw [hrange, hreported.toByteRange_eq] at houtside
      simp at houtside
    · have happlied : a ∈ (linter.correct file).value.applied := by
        rcases hmem with hnone | hmem
        · simp at hnone
        · exact hmem
      have ha := recasts_of_mem_corrections hlinter h (mem_corrections_of_mem_applied happlied)
      have hsame := ha.location_eq_of_conflicts (recasts_of_mem_corrections hlinter h hc) hconflict
      exact List.mem_map.mpr ⟨a, happlied, hsame⟩

/-- **What is reported again is silenced.**  It was reported before, so either its
correction was proposed and its `let` is one of those recast, or it was silenced. -/
theorem isDisabled_of_reported_again {again : SourceFile} {r : Rule} {range : ByteRange}
    (hlinter : linter.OnlyRuntimeLet) (hr : r ∈ linter.rules) (h : file.ReadFrom pieces root)
    (hagain : again.ReadFrom (Piece.recast
      (Correction.starts (linter.correct file).value.applied) 0 pieces) root)
    (hmem : range ∈ (r.detectAll again root).value) :
    ∃ pieces' front back rest after,
      RuntimeLet.Reported again pieces' range front back rest after ∧
        (silencing file).isDisabled (1 + lineBreaks (joinPieces front)) r.id = true := by
  have hcopy := hlinter r hr
  obtain ⟨hcandidate, front', back', rest', after', hreported'⟩ :=
    (RuntimeLet.mem_detectAll_iff_reported hcopy hagain).mp hmem
  obtain ⟨front, back, rest, after, hreported, hfront, hnot⟩ :=
    hreported'.of_recast (cut_join h.cut_eq).symm (cut_join hagain.cut_eq).symm
  have hbefore : range ∈ (r.detectAll file root).value :=
    (RuntimeLet.mem_detectAll_iff_reported hcopy h).mpr
      ⟨hcandidate, front, back, rest, after, hreported⟩
  have hlines : lineBreaks (joinPieces front') = lineBreaks (joinPieces front) := by
    rw [← hfront, ← lineBreaks_shapes, shapes_joinPieces_recast, lineBreaks_shapes]
  refine ⟨_, front', back', rest', after', hreported', ?_⟩
  rw [hlines]
  obtain ⟨index, hget⟩ := List.mem_iff_getElem?.mp hr
  have hindex := List.mk_mem_zipIdx_iff_getElem?.mpr hget
  obtain ⟨location, hcorrection⟩ := hreported.value_correction? r index (silencing file)
  by_cases hdisabled :
      (silencing file).isDisabled (1 + lineBreaks (joinPieces front)) r.id = true
  · exact hdisabled
  · rw [if_neg hdisabled] at hcorrection
    have hproposed := (mem_corrections_iff hlinter h).mpr
      ⟨r, index, hindex, range, hbefore, hcorrection⟩
    exact absurd (start_mem_of_mem_corrections hlinter h hproposed) hnot

end Linter

/-- Texts with the same line comments silence the same. -/
theorem Silencing.ofSource_congr {source other : String}
    (h : lineComments source = lineComments other) : ofSource source = ofSource other := by
  unfold ofSource
  rw [h]

namespace Linter

variable {linter : Linter} {source : String} {root : Declaration}

/-- **Correcting keeps the structure.**  The corrected text of a file has the tree
of the file.  It has the same line comments, which stand in both texts at the same
spans, so the same rules are silent on the same lines. -/
theorem correct_keeps_tree (hlinter : linter.OnlyRuntimeLet)
    (h : declarationTree source = .ok root) (path : Option String) :
    declarationTree (linter.correct (.scanned path source)).value.contents = .ok root ∧
      (∃ comments, lineComments source = .ok comments ∧
        lineComments (linter.correct (.scanned path source)).value.contents = .ok comments ∧
          ∀ c ∈ comments, Occupies source.toList c.range c.text ∧
            Occupies (linter.correct (.scanned path source)).value.contents.toList
              c.range c.text) ∧
        ∀ line rule,
          (Silencing.ofSource
            (linter.correct (.scanned path source)).value.contents).value.isDisabled line rule =
              (Silencing.ofSource source).value.isDisabled line rule := by
  obtain ⟨pieces, hcut, hread⟩ := SourceFile.exists_readFrom h path
  rw [contents_correct hlinter hread]
  have hcomments := lineComments_recast hcut
    (Correction.starts (linter.correct (.scanned path source)).value.applied)
  have hcut' := cut_recast hcut
    (Correction.starts (linter.correct (.scanned path source)).value.applied)
  have hlines : lineComments source = .ok (LineComment.ofPieces pieces) := by
    unfold lineComments
    rw [hcut]
    rfl
  refine ⟨(declarationTree_recast hcut _).trans h,
    ⟨LineComment.ofPieces pieces, hlines, hcomments.trans hlines, ?_⟩, ?_⟩
  · intro c hc
    refine ⟨LineComment.occupies_of_mem hcut hc, ?_⟩
    rw [String.toList_ofList]
    rw [← LineComment.ofPieces_recast] at hc
    exact LineComment.occupies_of_mem hcut' hc
  · intro line rule
    rw [Silencing.ofSource_congr hcomments]

/-- Of a struct with two properties, one of them silenced, the tree stays when two
copies of the rule correct it. -/
theorem correct_keeps_tree_struct :
    ∃ root property silenced,
      declarationTree
        "struct É \x7b\n let a: Int // structlint:disable:this all\n let b: Int\n\x7d" =
        .ok root ∧
      root.children.map Declaration.children = [[silenced, property]] ∧
      declarationTree ((Linter.mk [RuntimeLet.rule, RuntimeLet.rule.withSeverity .error]).correct
        (.scanned none
          "struct É \x7b\n let a: Int // structlint:disable:this all\n let b: Int\n\x7d")
        ).value.contents = .ok root := by
  have htree : declarationTree
      "struct É \x7b\n let a: Int // structlint:disable:this all\n let b: Int\n\x7d" = .ok
        { range := some ⟨0, 68⟩
          children :=
            [{ kind := some .structType
               range := some ⟨0, 68⟩
               bodyLength := some 56
               children :=
                [{ kind := some .varInstance, range := some ⟨13, 10⟩ },
                  { kind := some .varInstance, range := some ⟨56, 10⟩ }] }] } := by
    with_unfolding_all rfl
  have hlinter :
      (Linter.mk [RuntimeLet.rule, RuntimeLet.rule.withSeverity .error]).OnlyRuntimeLet := by
    intro r hr
    rcases List.mem_cons.mp hr with rfl | hr
    · exact ⟨.warning, rfl⟩
    · exact ⟨.error, List.mem_singleton.mp hr⟩
  exact ⟨_, _, _, htree, rfl, (correct_keeps_tree hlinter htree none).1⟩

/-- The file with its text corrected and its tree derived anew. -/
def corrected (linter : Linter) (file : SourceFile) : SourceFile :=
  (file.withContents (linter.correct file).value.contents declarationTree).value

/-- A corrected file was read from the recast pieces, and the same is silenced. -/
theorem readFrom_corrected {path : Option String} {pieces : List Piece}
    (hlinter : linter.OnlyRuntimeLet) (h : declarationTree source = .ok root)
    (hcut : cut source.toList = .ok pieces)
    (hread : (SourceFile.scanned path source).ReadFrom pieces root) :
    (linter.corrected (.scanned path source)).ReadFrom (Piece.recast
      (Correction.starts (linter.correct (.scanned path source)).value.applied) 0 pieces) root ∧
    silencing (linter.corrected (.scanned path source)) = silencing (.scanned path source) := by
  have hagain : linter.corrected (.scanned path source) = .scanned path
      (String.ofList (joinPieces (Piece.recast
        (Correction.starts (linter.correct (.scanned path source)).value.applied) 0 pieces))) := by
    unfold corrected SourceFile.withContents
    rw [SourceFile.path_scanned, contents_correct hlinter hread]
    rfl
  rw [hagain]
  refine ⟨SourceFile.readFrom_recast h hcut path _, ?_⟩
  unfold silencing
  rw [SourceFile.text_scanned, SourceFile.text_scanned, Text.contents_ofString,
    Text.contents_ofString, Silencing.ofSource_congr (lineComments_recast hcut _)]

/-- **Correcting is complete and idempotent.**  The corrected file has a tree,
nothing is reported of it, and correcting it once more changes nothing. -/
theorem correct_corrected (hlinter : linter.OnlyRuntimeLet)
    (h : declarationTree source = .ok root) (path : Option String) :
    (∃ tree, (linter.corrected (.scanned path source)).tree = .ok tree) ∧
      (linter.lint (linter.corrected (.scanned path source))).value = [] ∧
      (linter.corrections (linter.corrected (.scanned path source))).value = [] ∧
      (linter.correct (linter.corrected (.scanned path source))).value.changed = false ∧
      (linter.correct (linter.corrected (.scanned path source))).value.contents =
        (linter.correct (.scanned path source)).value.contents := by
  obtain ⟨pieces, hcut, hread⟩ := SourceFile.exists_readFrom h path
  obtain ⟨hagain, hsilencing⟩ := readFrom_corrected hlinter h hcut hread
  have hlint : (linter.lint (linter.corrected (.scanned path source))).value = [] := by
    unfold lint
    rw [hagain.tree_eq]
    simp only [Logged.value_bind, Logged.value_flatMap, List.flatMap_eq_nil_iff]
    intro r hr
    unfold Rule.violations
    simp only [Logged.value_bind, Logged.value_filterMap, List.filterMap_eq_nil_iff]
    intro range hrange
    obtain ⟨pieces', front, back, rest, after, hreported, hdisabled⟩ :=
      isDisabled_of_reported_again hlinter hr hread hagain hrange
    rw [← hsilencing] at hdisabled
    exact hreported.value_violation? hdisabled
  have hcorrections :
      (linter.corrections (linter.corrected (.scanned path source))).value = [] := by
    apply List.eq_nil_iff_forall_not_mem.mpr
    intro c hc
    obtain ⟨r, index, hmem, range, hrange, hvalue⟩ := (mem_corrections_iff hlinter hagain).mp hc
    obtain ⟨pieces', front, back, rest, after, hreported, hdisabled⟩ :=
      isDisabled_of_reported_again hlinter (List.fst_mem_of_mem_zipIdx hmem) hread hagain hrange
    obtain ⟨location, hcorrection⟩ := hreported.value_correction? r index
      (silencing (linter.corrected (.scanned path source)))
    rw [hcorrection, hsilencing, if_pos hdisabled] at hvalue
    simp at hvalue
  have hcorrect : (linter.correct (linter.corrected (.scanned path source))).value =
      ⟨(linter.corrected (.scanned path source)).text.contents, [], []⟩ := by
    unfold correct
    rw [Logged.value_bind, hcorrections]
    simp [CorrectedText.ofCorrections, Correction.select, CorrectedText.spliceAll]
  refine ⟨⟨root, hagain.tree_eq⟩, hlint, hcorrections, ?_, ?_⟩
  · rw [hcorrect]
    rfl
  · rw [hcorrect]
    unfold corrected SourceFile.withContents
    rw [SourceFile.value_parse]
    simp

/-- Of an enum with a property, nothing is left to report or correct once it is
corrected. -/
theorem correct_corrected_enum :
    ∃ root, declarationTree "enum E \x7b let a: Int \x7d" = .ok root ∧ root.children ≠ [] ∧
      ((Linter.mk [RuntimeLet.rule]).lint ((Linter.mk [RuntimeLet.rule]).corrected
        (.scanned none "enum E \x7b let a: Int \x7d"))).value = [] ∧
      ((Linter.mk [RuntimeLet.rule]).correct ((Linter.mk [RuntimeLet.rule]).corrected
        (.scanned none "enum E \x7b let a: Int \x7d"))).value.changed = false := by
  have htree : declarationTree "enum E \x7b let a: Int \x7d" = .ok
      { range := some ⟨0, 21⟩
        children :=
          [{ kind := some .enumType
             range := some ⟨0, 21⟩
             bodyLength := some 12
             children := [{ kind := some .varInstance, range := some ⟨9, 10⟩ }] }] } := by
    with_unfolding_all rfl
  have hlinter : (Linter.mk [RuntimeLet.rule]).OnlyRuntimeLet := by
    intro r hr
    exact ⟨.warning, List.mem_singleton.mp hr⟩
  obtain ⟨-, hlint, -, hchanged, -⟩ := correct_corrected hlinter htree none
  exact ⟨_, htree, by simp, hlint, hchanged⟩

end Linter

end DeclLint
