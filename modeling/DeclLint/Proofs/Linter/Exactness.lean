import DeclLint.Proofs.Linter.Autocorrect
import DeclLint.Proofs.Outline.Order
import Mathlib.Data.List.Forall2

/-!
# The violations of a file, exactly

Of a text that was read, the rule against runtime `let`s reports each stored property
that gets its value at run time, unless its line is silenced, and nothing else.  What
such a property is, is said here by its place in the tree and by the text that it
takes up, with no word of how the rule looks for it.

* `RuntimeLet.Property` — the declarations that the rule is about;
* `RuntimeLet.detectAt_cases` — what the rule makes of one declaration;
* `Linter.lint_scanned` — the violations are those of the properties that are not
  silenced, one for each, in the order of the text.
-/

namespace DeclLint

section Lists

variable {α β : Type} {R : α → β → Prop}

/-- Where each element of a list that meets a condition gives one result and no other
element gives any, the results go with the elements that meet it. -/
theorem forall₂_filter_flatMap {condition : α → Prop} [DecidablePred condition]
    {results : α → List β} {as : List α}
    (h : ∀ a ∈ as, (condition a ∧ ∃ b, results a = [b] ∧ R a b) ∨
      ¬ condition a ∧ results a = []) :
    List.Forall₂ R (as.filter condition) (as.flatMap results) := by
  induction as with
  | nil => exact .nil
  | cons a as ih =>
      obtain ⟨hfirst, hothers⟩ := List.forall_mem_cons.mp h
      rw [List.flatMap_cons]
      rcases hfirst with ⟨hcondition, b, hresults, hR⟩ | ⟨hcondition, hresults⟩
      · rw [List.filter_cons_of_pos (by simpa using hcondition), hresults, List.singleton_append]
        exact .cons hR (ih hothers)
      · rw [List.filter_cons_of_neg (by simpa using hcondition), hresults, List.nil_append]
        exact ih hothers

/-- What goes with elements in order is in order. -/
theorem pairwise_of_forall₂ {S : α → α → Prop} {T : β → β → Prop} {as : List α} {bs : List β}
    (h : List.Forall₂ R as bs) (has : as.Pairwise S)
    (hstep : ∀ a a' b b', R a b → R a' b' → S a a' → T b b') : bs.Pairwise T := by
  rw [List.pairwise_iff_getElem] at has ⊢
  intro i j hi hj hij
  have hlength := h.length_eq
  have hfirst := h.get (hlength ▸ hi) hi
  have hsecond := h.get (hlength ▸ hj) hj
  exact hstep _ _ _ _ hfirst hsecond (has i j _ _ hij)

end Lists

namespace RuntimeLet

/-- A stored property that gets its value at run time: an instance variable directly
in a struct or enum, with neither a setter accessibility nor accessors, whose text
begins with the keyword `let` and gives no value.  The characters before it in the
source text are `front`. -/
structure Property (source : List Char) (container : Option Declaration) (d : Declaration)
    (front : List Char) : Prop where
  kind_eq : d.kind = some .varInstance
  inside : ∃ outer, container = some outer ∧
    (outer.kind = some .structType ∨ outer.kind = some .enumType)
  setter_eq : d.setterAccessibility = none
  bodyLength_eq : d.bodyLength = none
  reads : ∃ rest back, source = front ++ (['l', 'e', 't'] ++ rest) ++ back ∧
    d.range = some ⟨utf8Size front, utf8Size (['l', 'e', 't'] ++ rest)⟩ ∧
    (∀ c ∈ rest.head?, isWordChar c = false) ∧ '=' ∉ rest

/-- What the rule asks of a declaration before it looks at the text. -/
theorem isCandidate_eq_true_iff {kind : DeclarationKind} {d : Declaration}
    {container : Option Declaration} :
    isCandidate kind d container = true ↔
      kind = .varInstance ∧
        (∃ outer, container = some outer ∧
          (outer.kind = some .structType ∨ outer.kind = some .enumType)) ∧
        d.setterAccessibility = none ∧ d.bodyLength = none := by
  have hvalue : ∀ k : DeclarationKind, k.isValueType = true ↔ k = .structType ∨ k = .enumType := by
    intro k
    cases k <;> simp [DeclarationKind.isValueType]
  unfold isCandidate
  cases container with
  | none => simp
  | some outer =>
      cases hkind : outer.kind with
      | none => simp [hkind]
      | some inner => simp [hkind, hvalue, and_assoc]

/-- A declaration may break the rule, or it cannot, whatever its text is. -/
theorem isCandidate_cases (d : Declaration) (container : Option Declaration) :
    (∃ kind, d.kind = some kind ∧ isCandidate kind d container = true) ∨
      ∀ kind, d.kind = some kind → isCandidate kind d container = false := by
  cases hkind : d.kind with
  | none => exact .inr (by simp)
  | some kind =>
      by_cases hcandidate : isCandidate kind d container = true
      · exact .inl ⟨kind, rfl, hcandidate⟩
      · exact .inr (by simpa using hcandidate)

/-- What the rule makes of a declaration and the one that directly contains it. -/
def detectAt (r : Rule) (file : SourceFile) (container : Option Declaration) (d : Declaration) :
    Logged (List ByteRange) :=
  match d.kind with
  | some kind => r.detect file kind d container
  | none => pure []

theorem detectAll_eq (r : Rule) (file : SourceFile) (root : Declaration) :
    r.detectAll file root = root.visitAll (detectAt r file) := rfl

variable {r : Rule} {file : SourceFile} {root d : Declaration} {container : Option Declaration}
  {range : ByteRange} {pieces : List Piece}

/-- A declaration that may break the rule is reported if its text does. -/
theorem detectAt_of_isCandidate {text : String} (hr : IsCopy r) {kind : DeclarationKind}
    (hkind : d.kind = some kind) (hcandidate : isCandidate kind d container = true)
    (hrange : d.range = some range) (hslice : file.text.sliceBytes range = .ok text) :
    detectAt r file container d = pure (if isRuntimeLet text then [range] else []) := by
  obtain ⟨severity, rfl⟩ := hr
  simp [detectAt, hkind, Rule.withSeverity, rule, detect, hcandidate, hrange, hslice]

/-- A declaration that cannot break the rule is not reported. -/
theorem detectAt_of_not_isCandidate (hr : IsCopy r)
    (h : ∀ kind, d.kind = some kind → isCandidate kind d container = false) :
    detectAt r file container d = pure [] := by
  obtain ⟨severity, rfl⟩ := hr
  unfold detectAt
  cases hkind : d.kind with
  | none => rfl
  | some kind => simp [Rule.withSeverity, rule, detect, h kind hkind]

/-- The text of such a property is one of a `let` without value. -/
theorem Property.isRuntimeLet_eq {front : List Char} {text : String}
    (h : Property file.text.chars container d front) (hrange : d.range = some range)
    (hslice : file.text.sliceBytes range = .ok text) : isRuntimeLet text = true := by
  obtain ⟨rest, back, hsource, hrange', hends, hvalueless⟩ := h.reads
  obtain rfl := Option.some.inj (hrange.symm.trans hrange')
  obtain ⟨hoccupies, -⟩ := Text.sliceBytes_eq_ok_iff.mp hslice
  have htext : text = String.ofList (['l', 'e', 't'] ++ rest) := by
    rw [← hoccupies.unique ⟨front, back, hsource, rfl⟩, String.ofList_toList]
  rw [htext, isRuntimeLet, letOffset?_let hends]
  simpa using hvalueless

/-- Only one run of characters is before a declaration. -/
theorem Property.front_unique {source front front' : List Char}
    (h : Property source container d front) (h' : Property source container d front') :
    front = front' := by
  obtain ⟨rest, back, hsource, hrange, -⟩ := h.reads
  obtain ⟨rest', back', hsource', hrange', -⟩ := h'.reads
  have hsize : utf8Size front = utf8Size front' := by
    have hsame := hrange.symm.trans hrange'
    simp only [Option.some.injEq, ByteRange.mk.injEq] at hsame
    exact hsame.1
  rw [List.append_assoc] at hsource hsource'
  exact (append_inj_of_utf8Size_eq (hsource.symm.trans hsource') hsize).1

/-- Of two such properties, the one that begins first has fewer characters before
it. -/
theorem Property.length_lt {source front front' : List Char} {container' : Option Declaration}
    {e : Declaration} (h : Property source container d front)
    (h' : Property source container' e front') (hbefore : d.BeginsBefore e) :
    front.length < front'.length := by
  obtain ⟨rest, back, hsource, hrange, -⟩ := h.reads
  obtain ⟨rest', back', hsource', hrange', -⟩ := h'.reads
  obtain ⟨r, s, hr, hs, hlt⟩ := hbefore
  obtain rfl := Option.some.inj (hr.symm.trans hrange)
  obtain rfl := Option.some.inj (hs.symm.trans hrange')
  rw [List.append_assoc] at hsource hsource'
  exact length_lt_of_utf8Size_lt ⟨_, hsource.symm⟩ ⟨_, hsource'.symm⟩ hlt

/-- What may break the rule has a span that fits the text. -/
theorem exists_candidate (h : file.ReadFrom pieces root)
    (hp : (container, d) ∈ root.walk none) {kind : DeclarationKind} (hkind : d.kind = some kind)
    (hcandidate : isCandidate kind d container = true) :
    ∃ range, d.range = some range ∧ Candidate root range := by
  obtain ⟨-, outer, rfl⟩ := exists_of_isCandidate hcandidate
  have hbelow := Declaration.mem_walk_root_iff.mp hp
  obtain ⟨stretch, -, hnode⟩ := (Outline.holds_of_ofTokens h.tokens_eq).node _ hbelow
  obtain ⟨_, word, _, _, last, _, _, _, _, _, hrange⟩ := hnode.introduced
  exact ⟨_, hrange, some outer, d, kind, hp, hkind, hcandidate, hrange⟩

/-- **One declaration.**  The rule reports the declarations that it is about, and
notes nothing. -/
theorem detectAt_cases (hr : IsCopy r) (h : file.ReadFrom pieces root)
    (hfits : utf8Size file.text.chars ≤ maxOffset) (hp : (container, d) ∈ root.walk none) :
    (∃ range front back rest after, detectAt r file container d = pure [range] ∧
        Reported file pieces range front back rest after ∧
        Property file.text.chars container d (joinPieces front)) ∨
      detectAt r file container d = pure [] ∧
        ∀ front, ¬ Property file.text.chars container d front := by
  rcases isCandidate_cases d container with ⟨kind, hkind, hcandidate⟩ | hnone
  · obtain ⟨range, hrange, hc⟩ := exists_candidate h hp hkind hcandidate
    obtain ⟨word, -, -, -, rest, -, -, hoccupies, -⟩ := hc.introduced h
    have hslice := Text.sliceBytes_of_occupies hoccupies hfits
    rw [detectAt_of_isCandidate hr hkind hcandidate hrange hslice]
    by_cases hlet : isRuntimeLet (String.ofList (word ++ rest)) = true
    · left
      obtain ⟨front, back, rest', after, hreported⟩ := hc.reported h hslice hlet
      obtain ⟨rfl, hinside, hsetter, hbody⟩ := isCandidate_eq_true_iff.mp hcandidate
      refine ⟨range, front, back, rest', after, by rw [if_pos hlet], hreported, hkind, hinside,
        hsetter, hbody, rest', after, hreported.chars_eq, ?_, hreported.ends,
        hreported.valueless⟩
      rw [hrange, hreported.range_eq]
    · right
      refine ⟨by rw [if_neg hlet], ?_⟩
      intro front hproperty
      exact hlet (hproperty.isRuntimeLet_eq hrange hslice)
  · right
    refine ⟨detectAt_of_not_isCandidate hr hnone, ?_⟩
    intro front hproperty
    have hcandidate : isCandidate .varInstance d container = true := isCandidate_eq_true_iff.mpr
      ⟨rfl, hproperty.inside, hproperty.setter_eq, hproperty.bodyLength_eq⟩
    rw [hnone _ hproperty.kind_eq] at hcandidate
    simp at hcandidate

/-- A property of a source text that no directive silences on its first line. -/
def Unsilenced (source : String) (container : Option Declaration) (d : Declaration) : Prop :=
  ∃ front, Property source.toList container d front ∧
    (Silencing.ofSource source).value.isDisabled (1 + lineBreaks front) rule.id = false

/-- The violation at the place behind some leading characters of a file. -/
def violationBehind (path : Option String) (severity : Severity) (front : List Char) :
    Violation where
  ruleId := rule.id
  ruleName := description.name
  severity := severity
  message := description.description
  location := .behind path front

/-- The violations that one declaration adds to those of a file. -/
def violationsAt (r : Rule) (file : SourceFile) (silencing : Silencing)
    (p : Declaration.Pending) : List Violation :=
  (detectAt r file p.1 p.2).value.filterMap fun range => (r.violation? file silencing range).value

/-- The violations of a file are those of its declarations. -/
theorem value_violations (r : Rule) (file : SourceFile) (root : Declaration)
    (silencing : Silencing) :
    (r.violations file root silencing).value =
      (root.walk none).flatMap (violationsAt r file silencing) := by
  unfold Rule.violations
  rw [Logged.value_bind, Logged.value_filterMap, detectAll_eq, Declaration.value_visitAll,
    List.filterMap_flatMap]
  rfl

/-- **Nothing is noted.**  Every span that is reported maps onto the text. -/
theorem lines_violations (hr : IsCopy r) (h : file.ReadFrom pieces root)
    (hfits : utf8Size file.text.chars ≤ maxOffset) (silencing : Silencing) :
    (r.violations file root silencing).lines = [] := by
  have hdetect : (r.detectAll file root).lines = [] := by
    rw [detectAll_eq]
    apply Declaration.lines_visitAll_eq_nil
    intro p hp
    rcases detectAt_cases hr h hfits hp with ⟨_, _, _, _, _, heq, -⟩ | ⟨heq, -⟩ <;> rw [heq] <;> rfl
  have hviolation : (Logged.filterMap (r.violation? file silencing)
      (r.detectAll file root).value).lines = [] := by
    apply Logged.lines_filterMap_eq_nil
    intro range hrange
    obtain ⟨-, front, back, rest, after, hreported⟩ := (mem_detectAll_iff_reported hr h).mp hrange
    rw [hreported.violation?_eq r silencing]
    rfl
  unfold Rule.violations
  rw [Logged.lines_bind, hdetect, hviolation]
  rfl

end RuntimeLet

namespace Linter

open RuntimeLet

/-- The linter with the rule against runtime `let`s alone. -/
def runtimeLet (severity : Severity) : Linter := ⟨[rule.withSeverity severity]⟩

variable {source : String} {root : Declaration}

/-- **The linter with one rule.**  It reports and notes what the rule does. -/
theorem lint_runtimeLet (h : declarationTree source = .ok root) (path : Option String)
    (severity : Severity) :
    (runtimeLet severity).lint (.scanned path source) =
      (rule.withSeverity severity).violations (.scanned path source) root
        (Silencing.ofSource source).value := by
  obtain ⟨pieces, hcut, -⟩ := exists_cut_of_declarationTree h
  have hcomments : lineComments source = .ok (LineComment.ofPieces pieces) := by
    rw [lineComments, hcut]
    rfl
  have hlines : (Silencing.ofSource source).lines = [] := by
    rw [Silencing.ofSource, hcomments]
    rfl
  unfold lint runtimeLet
  rw [SourceFile.tree_scanned, h, SourceFile.text_scanned, Text.contents_ofString]
  dsimp only
  rw [Logged.bind_of_lines_eq_nil hlines, Logged.flatMap_singleton]

theorem fits_scanned (hfits : source.utf8ByteSize ≤ maxOffset) (path : Option String) :
    utf8Size (SourceFile.scanned path source).text.chars ≤ maxOffset := by
  rw [SourceFile.text_scanned]
  show utf8Size source.toList ≤ maxOffset
  rw [← utf8ByteSize_eq_utf8Size]
  exact hfits

/-- What one declaration adds to the violations of a file: that of a property, unless
it is silenced. -/
theorem violationsAt_cases (h : declarationTree source = .ok root)
    (hfits : source.utf8ByteSize ≤ maxOffset) (path : Option String) (severity : Severity)
    {p : Declaration.Pending} (hp : p ∈ root.walk none) :
    (Unsilenced source p.1 p.2 ∧ ∃ v,
        violationsAt (rule.withSeverity severity) (.scanned path source)
          (Silencing.ofSource source).value p = [v] ∧
        ∃ front, Property source.toList p.1 p.2 front ∧
          v = violationBehind path severity front) ∨
      ¬ Unsilenced source p.1 p.2 ∧
        violationsAt (rule.withSeverity severity) (.scanned path source)
          (Silencing.ofSource source).value p = [] := by
  obtain ⟨pieces, hcut, hread⟩ := SourceFile.exists_readFrom h path
  have hchars : (SourceFile.scanned path source).text.chars = source.toList := by
    rw [SourceFile.text_scanned]
    rfl
  have hcases := detectAt_cases ⟨severity, rfl⟩ hread (fits_scanned hfits path) hp
  rw [hchars] at hcases
  rcases hcases with
    ⟨range, front, back, rest, after, hdetect, hreported, hproperty⟩ | ⟨hdetect, hnone⟩
  · have hviolation : ((rule.withSeverity severity).violation? (.scanned path source)
        (Silencing.ofSource source).value range).value =
          if (Silencing.ofSource source).value.isDisabled (1 + lineBreaks (joinPieces front))
            rule.id then none else some (violationBehind path severity (joinPieces front)) := by
      rw [hreported.violation?_eq (rule.withSeverity severity), SourceFile.path_scanned]
      rfl
    by_cases hdisabled : (Silencing.ofSource source).value.isDisabled
        (1 + lineBreaks (joinPieces front)) rule.id = true
    · rw [if_pos hdisabled] at hviolation
      refine .inr ⟨?_, ?_⟩
      · rintro ⟨front', hproperty', henabled⟩
        obtain rfl := hproperty.front_unique hproperty'
        rw [hdisabled] at henabled
        exact absurd henabled (by decide)
      · simp [violationsAt, hdetect, hviolation]
    · rw [if_neg hdisabled] at hviolation
      refine .inl ⟨⟨joinPieces front, hproperty, Bool.not_eq_true _ ▸ hdisabled⟩,
        violationBehind path severity (joinPieces front), ?_, joinPieces front, hproperty, rfl⟩
      simp [violationsAt, hdetect, hviolation]
  · right
    refine ⟨?_, ?_⟩
    · rintro ⟨front, hproperty, -⟩
      exact hnone front hproperty
    · unfold violationsAt
      rw [hdetect]
      rfl

open Classical in
/-- **Lint is exact.**  Of a text that was read, and that fits in memory, the rule
notes nothing and reports the properties that it is about and that are not silenced:
one violation for each, at its `let`, in the order of the text. -/
theorem lint_scanned (h : declarationTree source = .ok root)
    (hfits : source.utf8ByteSize ≤ maxOffset) (path : Option String) (severity : Severity) :
    ((runtimeLet severity).lint (.scanned path source)).lines = [] ∧
      List.Forall₂
        (fun p v => ∃ front, Property source.toList p.1 p.2 front ∧
          v = violationBehind path severity front)
        ((root.walk none).filter fun p => Unsilenced source p.1 p.2)
        ((runtimeLet severity).lint (.scanned path source)).value ∧
      ((runtimeLet severity).lint (.scanned path source)).value.Pairwise fun v w =>
        v.location.offset < w.location.offset := by
  rw [lint_runtimeLet h path severity]
  obtain ⟨pieces, hcut, hread⟩ := SourceFile.exists_readFrom h path
  have hlaid := Token.laid_ofPieces hread.cut_eq
  have hforall : List.Forall₂
      (fun (p : Declaration.Pending) v => ∃ front, Property source.toList p.1 p.2 front ∧
        v = violationBehind path severity front)
      ((root.walk none).filter fun p => Unsilenced source p.1 p.2)
      ((rule.withSeverity severity).violations (.scanned path source) root
        (Silencing.ofSource source).value).value := by
    rw [value_violations]
    exact forall₂_filter_flatMap fun p hp => violationsAt_cases h hfits path severity hp
  refine ⟨lines_violations ⟨severity, rfl⟩ hread (fits_scanned hfits path) _, hforall, ?_⟩
  have horder : ((root.walk none).filter fun p => Unsilenced source p.1 p.2).Pairwise
      fun p q => p.2.BeginsBefore q.2 := by
    have hroot : ¬ Unsilenced source none root := by
      rintro ⟨front, hproperty, -⟩
      obtain ⟨outer, hnone, -⟩ := hproperty.inside
      simp at hnone
    rw [Declaration.walk_eq, List.filter_cons_of_neg (by simpa using hroot)]
    exact ((Outline.holds_of_ofTokens hread.tokens_eq).beginsBefore hlaid).filter _
  refine pairwise_of_forall₂ hforall horder ?_
  rintro p q v w ⟨front, hp, rfl⟩ ⟨front', hq, rfl⟩ hbefore
  exact hp.length_lt hq hbefore

open Classical in
/-- Of a struct with a value between two runtime `let`s, the violations are those of
the properties. -/
theorem lint_scanned_struct :
    ∃ root, declarationTree "struct S \x7b\n let a: É\n let b = 1\n let c: É\n\x7d" = .ok root ∧
      (root.children.map fun d => d.children.length) = [3] ∧
      ((runtimeLet .error).lint
        (.scanned none "struct S \x7b\n let a: É\n let b = 1\n let c: É\n\x7d")).lines = [] ∧
      ((runtimeLet .error).lint
        (.scanned none "struct S \x7b\n let a: É\n let b = 1\n let c: É\n\x7d")).value.length =
          ((root.walk none).filter fun p => Unsilenced
            "struct S \x7b\n let a: É\n let b = 1\n let c: É\n\x7d" p.1 p.2).length := by
  have htree : declarationTree "struct S \x7b\n let a: É\n let b = 1\n let c: É\n\x7d" = .ok
      { range := some ⟨0, 45⟩
        children :=
          [{ kind := some .structType
             range := some ⟨0, 45⟩
             bodyLength := some 34
             children :=
               [{ kind := some .varInstance, range := some ⟨12, 9⟩ },
                 { kind := some .varInstance, range := some ⟨23, 9⟩ },
                 { kind := some .varInstance, range := some ⟨34, 9⟩ }] }] } := by
    with_unfolding_all rfl
  obtain ⟨hlines, hforall, -⟩ := lint_scanned htree (by decide) none .error
  exact ⟨_, htree, rfl, hlines, hforall.length_eq.symm⟩

end Linter

end DeclLint
