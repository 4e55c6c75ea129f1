import DeclLint.Proofs.Linter.Exactness

/-!
# What is reported is what is corrected

The rule against runtime `let`s is run twice over a file: once for violations, and
once for corrections, which narrow what is reported to its `let`.  Each run silences
and places its results for itself.  Of a text that was read both come down to the same
list: what stands before the spans that are reported on lines that are not silenced.

* `RuntimeLet.pairwise_detectAll` — what is reported begins further and further on;
* `RuntimeLet.unsilenced` — what stands before the results of a file;
* `Linter.value_lint`, `Linter.value_corrections` — both runs, read off that list;
* `Linter.value_correct` — all of its corrections are made;
* `Linter.corrections_agree` — so violations and corrections go together.
-/

namespace DeclLint

namespace RuntimeLet

variable {r : Rule} {file : SourceFile} {root d : Declaration} {container : Option Declaration}
  {pieces : List Piece}

/-- Of one declaration at most its own span is reported. -/
theorem value_detectAt_cases (hr : IsCopy r) (file : SourceFile)
    (container : Option Declaration) (d : Declaration) :
    (detectAt r file container d).value = [] ∨
      ∃ range, d.range = some range ∧ (detectAt r file container d).value = [range] := by
  rcases isCandidate_cases d container with ⟨kind, hkind, hcandidate⟩ | hnone
  · obtain ⟨severity, rfl⟩ := hr
    simp only [detectAt, hkind, Rule.withSeverity, rule, detect, hcandidate, if_true]
    cases hrange : d.range with
    | none => exact .inl rfl
    | some range =>
        dsimp only
        cases file.text.sliceBytes range with
        | error e => exact .inl rfl
        | ok text =>
            by_cases hlet : isRuntimeLet text = true
            · exact .inr ⟨range, rfl, by simp [hlet]⟩
            · exact .inl (by simp [hlet])
  · rw [detectAt_of_not_isCandidate hr hnone]
    exact .inl rfl

/-- **Reports go forward.**  Of a text that was read, spans are reported in the order
of the text. -/
theorem pairwise_detectAll (hr : IsCopy r) (h : file.ReadFrom pieces root) :
    (r.detectAll file root).value.Pairwise fun a b => a.location < b.location := by
  have hroot : detectAt r file none root = pure [] :=
    detectAt_of_not_isCandidate hr fun kind _ => by simp [isCandidate]
  have horder : (Declaration.walkAll (some root) root.children).Pairwise
      fun p q => p.2.BeginsBefore q.2 :=
    (Outline.holds_of_ofTokens h.tokens_eq).beginsBefore (Token.laid_ofPieces h.cut_eq)
  rw [detectAll_eq, Declaration.value_visitAll, Declaration.walk_eq, List.flatMap_cons, hroot,
    Logged.value_pure, List.nil_append, List.pairwise_flatMap]
  refine ⟨?_, horder.imp ?_⟩
  · rintro ⟨outer, d⟩ -
    rcases value_detectAt_cases hr file outer d with hnone | ⟨range, -, hone⟩
    · simp [hnone]
    · simp [hone]
  · rintro ⟨outer, d⟩ ⟨outer', e⟩ ⟨first, second, hd, he, hlt⟩ a ha b hb
    rcases value_detectAt_cases hr file outer d with hnone | ⟨range, hrange, hone⟩
    · simp [hnone] at ha
    rcases value_detectAt_cases hr file outer' e with hnone' | ⟨range', hrange', hone'⟩
    · simp [hnone'] at hb
    obtain rfl : a = range := by simpa [hone] using ha
    obtain rfl : b = range' := by simpa [hone'] using hb
    obtain rfl := Option.some.inj (hd.symm.trans hrange)
    obtain rfl := Option.some.inj (he.symm.trans hrange')
    exact hlt

/-- What stands before the spans that are reported of a file, where the first line of
a span is not silenced. -/
def unsilenced (file : SourceFile) (root : Declaration) : List (List Char) :=
  ((rule.detectAll file root).value.map file.text.before).filter fun front =>
    !(Linter.silencing file).isDisabled (1 + lineBreaks front) rule.id

/-- The correction of the `let` behind some leading characters of a file. -/
def correctionBehind (path : Option String) (front : List Char) : Correction where
  ruleId := rule.id
  ruleIndex := 0
  range := ⟨front.length, 3⟩
  replacement := "var"
  location := .behind path front

theorem Reported.before_eq {range : ByteRange} {front back : List Piece} {rest after : List Char}
    (h : Reported file pieces range front back rest after) :
    file.text.before range = joinPieces front := by
  refine Text.before_of_append (h.chars_eq.trans (List.append_assoc _ _ _)) ?_
  rw [h.range_eq]

/-- Results that are made of what stands before a span, unless it is silenced, are made
of what is before the unsilenced ones. -/
theorem filterMap_detectAll {β : Type} (h : file.ReadFrom pieces root)
    {result : ByteRange → Option β} {make : List Char → β}
    (hresult : ∀ range front back rest after, Reported file pieces range front back rest after →
      result range =
        if (Linter.silencing file).isDisabled (1 + lineBreaks (joinPieces front)) rule.id then none
        else some (make (joinPieces front))) :
    (rule.detectAll file root).value.filterMap result = (unsilenced file root).map make := by
  unfold unsilenced
  rw [List.filter_map, List.map_map, ← List.filterMap_eq_map, List.filterMap_filter]
  refine List.filterMap_congr fun range hrange => ?_
  obtain ⟨-, front, back, rest, after, hreported⟩ :=
    (mem_detectAll_iff_reported ⟨_, rfl⟩ h).mp hrange
  rw [hresult range front back rest after hreported]
  by_cases hdisabled :
      (Linter.silencing file).isDisabled (1 + lineBreaks (joinPieces front)) rule.id = true
  · simp [hreported.before_eq, hdisabled]
  · simp [hreported.before_eq, hdisabled]

/-- What stands before an unsilenced span, with the pieces of the text. -/
theorem exists_reported_of_mem_unsilenced {front : List Char} (h : file.ReadFrom pieces root)
    (hfront : front ∈ unsilenced file root) :
    ∃ range lead back rest after, Reported file pieces range lead back rest after ∧
      joinPieces lead = front := by
  obtain ⟨range, hrange, hbefore⟩ := List.mem_map.mp (List.mem_filter.mp hfront).1
  obtain ⟨-, lead, back, rest, after, hreported⟩ :=
    (mem_detectAll_iff_reported ⟨_, rfl⟩ h).mp hrange
  exact ⟨range, lead, back, rest, after, hreported, hreported.before_eq ▸ hbefore⟩

/-- The `let` behind an unsilenced span is a piece of the text. -/
theorem recasts_correctionBehind {front : List Char} (h : file.ReadFrom pieces root)
    (hfront : front ∈ unsilenced file root) (path : Option String) :
    (correctionBehind path front).Recasts pieces := by
  obtain ⟨range, lead, back, rest, after, hreported, rfl⟩ :=
    exists_reported_of_mem_unsilenced h hfront
  exact ⟨lead, back, hreported.pieces_eq, rfl, rfl⟩

/-- What stands before unsilenced spans grows. -/
theorem pairwise_unsilenced (h : file.ReadFrom pieces root) :
    (unsilenced file root).Pairwise fun a b => a.length < b.length := by
  refine List.Pairwise.filter _ (List.pairwise_map.mpr ?_)
  refine (pairwise_detectAll ⟨_, rfl⟩ h).imp_of_mem ?_
  intro a b ha hb hlt
  obtain ⟨-, front, back, rest, after, hreported⟩ := (mem_detectAll_iff_reported ⟨_, rfl⟩ h).mp ha
  obtain ⟨-, front', back', rest', after', hreported'⟩ :=
    (mem_detectAll_iff_reported ⟨_, rfl⟩ h).mp hb
  rw [hreported.before_eq, hreported'.before_eq]
  rw [hreported.range_eq, hreported'.range_eq] at hlt
  have hfirst : joinPieces front <+: file.text.chars :=
    ⟨_, (hreported.chars_eq.trans (List.append_assoc _ _ _)).symm⟩
  have hsecond : joinPieces front' <+: file.text.chars :=
    ⟨_, (hreported'.chars_eq.trans (List.append_assoc _ _ _)).symm⟩
  exact length_lt_of_utf8Size_lt hfirst hsecond hlt

/-- **Corrections stand apart.**  The `let`s of two unsilenced spans are two pieces of the
text, and the one reported first is the first of them. -/
theorem pairwise_before_correctionBehind (h : file.ReadFrom pieces root)
    (path : Option String) :
    ((unsilenced file root).map (correctionBehind path)).Pairwise Correction.Before := by
  refine List.pairwise_map.mpr ((pairwise_unsilenced h).imp_of_mem ?_)
  intro a b ha hb hlt
  have hstart : (correctionBehind path a).range.location <
      (correctionBehind path b).range.location := hlt
  refine (Correction.conflicts_eq_false_iff (Nat.le_of_lt hstart)).mp ?_
  refine Bool.eq_false_iff.mpr fun hconflict => ?_
  have hsame := (recasts_correctionBehind h ha path).location_eq_of_conflicts
    (recasts_correctionBehind h hb path) hconflict
  exact absurd hsame (Nat.ne_of_lt hstart)

/-- The `let` behind an unsilenced span, in the text. -/
theorem correctionBehind_fits {front : List Char} (h : file.ReadFrom pieces root)
    (hfront : front ∈ unsilenced file root) (path : Option String) :
    (∃ bytes, file.text.toByteRange (correctionBehind path front).range = .ok bytes) ∧
      file.text.sliceChars (correctionBehind path front).range = .ok "let" := by
  obtain ⟨range, lead, back, rest, after, hreported, rfl⟩ :=
    exists_reported_of_mem_unsilenced h hfront
  refine ⟨⟨_, hreported.toByteRange_eq⟩, ?_⟩
  have hslice := Text.slice_of_chars_eq hreported.chars_split
  have hbytes := hreported.toByteRange_eq
  unfold Text.sliceChars
  rw [correctionBehind, hbytes]
  exact congrArg Except.ok hslice

end RuntimeLet

namespace Linter

open RuntimeLet

variable {source : String} {root : Declaration}

/-- **The violations of a file that was read.**  There is one for each unsilenced span. -/
theorem value_lint (h : declarationTree source = .ok root) (path : Option String)
    (severity : Severity) :
    ((runtimeLet severity).lint (.scanned path source)).value =
      (unsilenced (.scanned path source) root).map (violationBehind path severity) := by
  obtain ⟨pieces, -, hread⟩ := SourceFile.exists_readFrom h path
  have hsilencing : (Silencing.ofSource source).value = silencing (.scanned path source) := by
    rw [silencing, SourceFile.text_scanned, Text.contents_ofString]
  rw [lint_runtimeLet h, Rule.violations, Logged.value_bind, Logged.value_filterMap, hsilencing]
  refine filterMap_detectAll hread ?_
  intro range front back rest after hreported
  rw [hreported.violation?_eq, SourceFile.path_scanned]
  rfl

/-- **The corrections of a file that was read.**  There is one for each unsilenced span. -/
theorem value_corrections (h : declarationTree source = .ok root) (path : Option String)
    (severity : Severity) :
    ((runtimeLet severity).corrections (.scanned path source)).value =
      (unsilenced (.scanned path source) root).map (correctionBehind path) := by
  obtain ⟨pieces, -, hread⟩ := SourceFile.exists_readFrom h path
  rw [value_corrections_of_tree hread.tree_eq, runtimeLet, List.zipIdx_singleton,
    List.flatMap_singleton, Rule.value_corrections rfl]
  refine filterMap_detectAll hread ?_
  intro range front back rest after hreported
  rw [hreported.value_correction?_eq, SourceFile.path_scanned]
  rfl

/-- **Every correction is made.**  They stand apart, so none is dropped. -/
theorem value_correct (h : declarationTree source = .ok root) (path : Option String)
    (severity : Severity) :
    ((runtimeLet severity).correct (.scanned path source)).value =
      ⟨(CorrectedText.spliceAll (.ofString source)
        ((unsilenced (.scanned path source) root).map (correctionBehind path))).contents,
        (unsilenced (.scanned path source) root).map (correctionBehind path), []⟩ := by
  obtain ⟨pieces, -, hread⟩ := SourceFile.exists_readFrom h path
  have hinside : ∀ c ∈ (unsilenced (.scanned path source) root).map (correctionBehind path),
      ∃ bytes, (SourceFile.scanned path source).text.toByteRange c.range = .ok bytes := by
    intro c hc
    obtain ⟨front, hfront, rfl⟩ := List.mem_map.mp hc
    exact (correctionBehind_fits hread hfront path).1
  have hcorrect : ((runtimeLet severity).correct (.scanned path source)).value =
      (CorrectedText.ofCorrections (SourceFile.scanned path source).text
        ((runtimeLet severity).corrections (.scanned path source)).value).value := rfl
  rw [hcorrect, value_corrections h path severity, CorrectedText.ofCorrections_of_apart hinside
    (pairwise_before_correctionBehind hread path), SourceFile.text_scanned]

/-- **Violations and corrections go together.**  Of a text that was read the rule
corrects what it reports: the first violation with the first correction, and so on, at
the same places.  Each correction puts `var` for the `let` at its violation, and all of
them are made, in that order. -/
theorem corrections_agree (h : declarationTree source = .ok root) (path : Option String)
    (severity : Severity) :
    List.Forall₂
        (fun (v : Violation) (c : Correction) =>
          c.location = v.location ∧ c.ruleId = v.ruleId ∧ c.ruleIndex = 0 ∧
            c.range = ⟨v.location.offset, 3⟩ ∧
            (SourceFile.scanned path source).text.sliceChars c.range = .ok "let" ∧
            c.replacement = "var")
        ((runtimeLet severity).lint (.scanned path source)).value
        ((runtimeLet severity).corrections (.scanned path source)).value ∧
      ((runtimeLet severity).correct (.scanned path source)).value.applied =
        ((runtimeLet severity).corrections (.scanned path source)).value ∧
      ((runtimeLet severity).correct (.scanned path source)).value.dropped = [] := by
  obtain ⟨pieces, -, hread⟩ := SourceFile.exists_readFrom h path
  rw [value_correct h path severity, value_corrections h path severity,
    value_lint h path severity]
  refine ⟨?_, rfl, rfl⟩
  rw [List.forall₂_map_left_iff, List.forall₂_map_right_iff, List.forall₂_same]
  intro front hfront
  exact ⟨rfl, rfl, rfl, rfl, (correctionBehind_fits hread hfront path).2, rfl⟩

/-- Of a struct with a silenced `let` between two others, both others are corrected. -/
theorem corrections_agree_struct :
    ∃ root, declarationTree
        "struct S {
 let a: É
 let b: É // structlint:disable:this all
 let c: É
}" =
        .ok root ∧
      ((runtimeLet .error).lint (.scanned none
        "struct S {
 let a: É
 let b: É // structlint:disable:this all
 let c: É
}")
        ).value.length =
      ((runtimeLet .error).correct (.scanned none
        "struct S {
 let a: É
 let b: É // structlint:disable:this all
 let c: É
}")
        ).value.applied.length := by
  have htree : declarationTree
      "struct S {
 let a: É
 let b: É // structlint:disable:this all
 let c: É
}" = .ok
        { range := some ⟨0, 76⟩
          children :=
            [{ kind := some .structType
               range := some ⟨0, 76⟩
               bodyLength := some 65
               children :=
                 [{ kind := some .varInstance, range := some ⟨12, 9⟩ },
                   { kind := some .varInstance, range := some ⟨23, 9⟩ },
                   { kind := some .varInstance, range := some ⟨65, 9⟩ }] }] } := by
    with_unfolding_all rfl
  obtain ⟨hforall, happlied, -⟩ := corrections_agree htree none .error
  exact ⟨_, htree, happlied ▸ hforall.length_eq⟩

end Linter

end DeclLint
