import DeclLint.FileResult
import DeclLint.Proofs.Linter.Agreement

/-!
# What correcting a source text puts in its place

Corrections carry the path of their file, but where they are made depends on the text
alone: the unsilenced runtime `let`s of a text are those of it under any path.  So a text
has one corrected text (`Linter.recast?`), whatever it is called, and that one has none.

* `Linter.corrected_correctSource` — the result of correcting a source text;
* `Linter.recast?_of_recast?_eq_some` — a corrected text is left alone.
-/

namespace DeclLint

namespace RuntimeLet

variable {source : String} {root : Declaration}

/-- What is reported of a text does not depend on its path. -/
theorem value_detectAll_scanned (path path' : Option String) (source : String)
    (root : Declaration) :
    (rule.detectAll (.scanned path source) root).value =
      (rule.detectAll (.scanned path' source) root).value := by
  rw [detectAll_eq, detectAll_eq, Declaration.value_visitAll, Declaration.value_visitAll]
  refine List.flatMap_congr fun p _ => ?_
  cases hkind : p.2.kind with
  | none => simp [detectAt, hkind]
  | some kind =>
      simp only [detectAt, hkind, rule, detect, SourceFile.text_scanned]
      by_cases hcandidate : isCandidate kind p.2 p.1 = true
      · rw [if_pos hcandidate, if_pos hcandidate]
        cases p.2.range with
        | none => rfl
        | some range =>
            dsimp only
            cases (Text.ofString source).sliceBytes range <;> rfl
      · rw [if_neg hcandidate, if_neg hcandidate]

/-- Neither does what stands before the unsilenced spans. -/
theorem unsilenced_scanned (path path' : Option String) (source : String)
    (root : Declaration) :
    unsilenced (.scanned path source) root = unsilenced (.scanned path' source) root := by
  unfold unsilenced Linter.silencing
  rw [value_detectAll_scanned path path', SourceFile.text_scanned, SourceFile.text_scanned]

/-- A text with `var` put for the `let`s behind some of its characters. -/
def putVars (source : String) (fronts : List (List Char)) : String :=
  (CorrectedText.spliceAll (.ofString source) (fronts.map (correctionBehind none))).contents

theorem contents_spliceAll_correctionBehind (source : String) (fronts : List (List Char))
    (path : Option String) :
    (CorrectedText.spliceAll (.ofString source) (fronts.map (correctionBehind path))).contents =
      putVars source fronts := by
  unfold putVars CorrectedText.spliceAll
  rw [List.foldr_map, List.foldr_map]
  rfl

end RuntimeLet

namespace Linter

open RuntimeLet

/-- The text with its unsilenced runtime `let`s made `var`s, if it has a tree and there
are any. -/
def recast? (source : String) : Option String :=
  match declarationTree source with
  | .error _ => none
  | .ok root =>
      match unsilenced (.scanned none source) root with
      | [] => none
      | front :: fronts => some (putVars source (front :: fronts))

/-- **The corrected text.**  It depends on the text alone. -/
theorem corrected_correctSource (severity : Severity) (path source : String) :
    ((runtimeLet severity).correctSource declarationTree path source).value.corrected =
      recast? source := by
  unfold correctSource recast?
  rw [Logged.value_bind]
  have hfile : (SourceFile.parse (some path) source declarationTree).value =
      .scanned (some path) source := rfl
  rw [hfile]
  cases htree : declarationTree source with
  | error e => simp [SourceFile.parseError?, htree, CorrectionResult.ofError]
  | ok root =>
      have hnone : (SourceFile.scanned (some path) source).parseError? = none := by
        simp [SourceFile.parseError?, htree]
      rw [hnone]
      dsimp only
      rw [Logged.value_bind, Logged.value_pure, value_correct htree,
        contents_spliceAll_correctionBehind, unsilenced_scanned (some path) none]
      cases unsilenced (.scanned none source) root <;> rfl

/-- **A corrected text is left alone.** -/
theorem recast?_of_recast?_eq_some {source text : String} (h : recast? source = some text) :
    recast? text = none := by
  unfold recast? at h
  cases htree : declarationTree source with
  | error e => simp [htree] at h
  | ok root =>
      obtain ⟨pieces, hcut, hread⟩ := SourceFile.exists_readFrom htree none
      have hlinter : (runtimeLet .warning).OnlyRuntimeLet :=
        fun r hr => ⟨.warning, List.mem_singleton.mp hr⟩
      have htext : ((runtimeLet .warning).correct (.scanned none source)).value.contents = text := by
        rw [value_correct htree, contents_spliceAll_correctionBehind]
        cases hfronts : unsilenced (.scanned none source) root with
        | nil => simp [htree, hfronts] at h
        | cons front fronts => simpa [htree, hfronts] using h
      obtain ⟨hagain, hsilencing⟩ := readFrom_corrected hlinter htree hcut hread
      have hfile : (runtimeLet .warning).corrected (.scanned none source) =
          .scanned none text := by
        unfold corrected SourceFile.withContents
        rw [htext, SourceFile.path_scanned]
        rfl
      rw [hfile] at hagain hsilencing
      have htree' : declarationTree text = .ok root := by
        rw [← hagain.tree_eq, SourceFile.tree_scanned]
      have hnone : unsilenced (.scanned none text) root = [] := by
        refine List.filter_eq_nil_iff.mpr fun front hfront => ?_
        obtain ⟨range, hrange, rfl⟩ := List.mem_map.mp hfront
        obtain ⟨_, lead, _, _, _, hreported, hdisabled⟩ :=
          isDisabled_of_reported_again (r := rule.withSeverity .warning) hlinter
            (List.mem_singleton.mpr rfl) hread hagain hrange
        have hid : (rule.withSeverity .warning).id = rule.id := rfl
        rw [hid] at hdisabled
        rw [hreported.before_eq, hsilencing, hdisabled]
        decide
      unfold recast?
      rw [htree']
      simp [hnone]

section OneLet

/-- An enum with one property, which gets its value at run time. -/
def oneLet : String := "enum E \x7b let a: Int \x7d"

/-- The enum with that property made variable. -/
def oneVar : String := "enum E \x7b var a: Int \x7d"

/-- The tree of both. -/
def oneLetTree : Declaration where
  range := some ⟨0, 21⟩
  children :=
    [{ kind := some .enumType
       range := some ⟨0, 21⟩
       bodyLength := some 12
       children := [{ kind := some .varInstance, range := some ⟨9, 10⟩ }] }]

theorem declarationTree_oneLet : declarationTree oneLet = .ok oneLetTree := by
  with_unfolding_all rfl

/-- The `let` of the example is reported. -/
theorem detected_oneLet :
    (rule.detectAll (.scanned none oneLet) oneLetTree).value = [⟨9, 10⟩] := by
  have hslice : (Text.ofString oneLet).sliceBytes ⟨9, 10⟩ = .ok "let a: Int" := by
    with_unfolding_all rfl
  have hlet : isRuntimeLet "let a: Int" = true := by
    have hoffset : letOffset? "let a: Int" = some 0 := by decide +kernel
    rw [isRuntimeLet, hoffset]
    simp
  rw [Rule.detectAll, Declaration.value_visitAll]
  simp [oneLetTree, Declaration.walk, rule, detect, isCandidate, DeclarationKind.isValueType,
    hslice, hlet]

/-- The property is corrected. -/
theorem recast?_oneLet : recast? oneLet = some oneVar := by
  have hsilencing : silencing (.scanned none oneLet) = {} := by decide +kernel
  have hfronts : unsilenced (.scanned none oneLet) oneLetTree = ["enum E \x7b ".toList] := by
    rw [unsilenced, detected_oneLet, hsilencing]
    decide +kernel
  have hvars : putVars oneLet ["enum E \x7b ".toList] = oneVar := by decide +kernel
  unfold recast?
  rw [declarationTree_oneLet]
  dsimp only
  rw [hfronts]
  exact congrArg some hvars

end OneLet

end Linter

end DeclLint
