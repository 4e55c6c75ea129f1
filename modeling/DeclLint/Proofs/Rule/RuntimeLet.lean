import DeclLint.Linter
import DeclLint.Proofs.Declaration.Walk
import DeclLint.Proofs.Outline.Placement
import DeclLint.Proofs.Source.Recast
import DeclLint.Proofs.Text.Position
import DeclLint.Rule.RuntimeLet

/-!
# What the rule against runtime `let`s reports and corrects

The rule looks for the first `let` or `var` in the text of a declaration.  On the
declarations that a text is found to hold, that is the word they begin with, so
what it reports begins with a `let` that is a piece of its own (`Reported`), and
what it corrects is that piece.

* `RuntimeLet.introducer?_append` — the introducing word of a text that begins with
  one;
* `RuntimeLet.mem_detectAll_iff` — the spans reported, for any tree;
* `RuntimeLet.mem_detectAll_iff_reported` — the spans reported of a text that was
  read;
* `RuntimeLet.Reported.value_correction?_eq` — the correction of what is reported.
-/

namespace DeclLint

/-- What may stand in words of the language may stand in words of a text. -/
theorem isWordChar_of_isWordCharacter {c : Char} (h : isWordCharacter c = true) :
    isWordChar c = true := by
  obtain ⟨span, hspan, hc⟩ := List.any_eq_true.mp h
  simp only [Bool.and_eq_true, decide_eq_true_eq] at hc
  by_cases hascii : c.toNat < 0x80
  · have hfirst : span ∈ wordCharacterSpans.take 4 := by
      have hothers : (wordCharacterSpans.drop 4).all (fun s => decide (0x80 ≤ s.1)) = true := by
        decide +kernel
      rw [← List.take_append_drop 4 wordCharacterSpans] at hspan
      rcases List.mem_append.mp hspan with hmem | hmem
      · exact hmem
      · have hle : 0x80 ≤ span.1 := by
          simpa using List.all_eq_true.mp hothers span hmem
        omega
    have hspans : wordCharacterSpans.take 4 =
        [(0x30, 0x39), (0x41, 0x5A), (0x5F, 0x5F), (0x61, 0x7A)] := rfl
    rw [hspans] at hfirst
    simp only [List.mem_cons, List.not_mem_nil, or_false] at hfirst
    have hword : c.isAlphanum = true ∨ c = '_' := by
      rcases hfirst with rfl | rfl | rfl | rfl
      · exact Or.inl (isAlphanum_iff_toNat.mpr (Or.inl hc))
      · exact Or.inl (isAlphanum_iff_toNat.mpr (Or.inr (Or.inl hc)))
      · right
        have heq : c.toNat = '_'.toNat := Nat.le_antisymm hc.2 hc.1
        exact Char.toNat_inj.mp heq
      · exact Or.inl (isAlphanum_iff_toNat.mpr (Or.inr (Or.inr hc)))
    unfold isWordChar
    rcases hword with hword | rfl
    · simp [hword]
    · decide
  · have hge : 0x80 ≤ c.val := by
      rw [UInt32.le_iff_toNat_le]
      show 0x80 ≤ c.toNat
      omega
    simp [isWordChar, hge]

/-- The tree of a file is the one that is read from the pieces of its text. -/
structure SourceFile.ReadFrom (file : SourceFile) (pieces : List Piece)
    (root : Declaration) : Prop where
  cut_eq : cut file.text.chars = .ok pieces
  tokens_eq : Outline.ofTokens (Token.ofPieces pieces) = .ok root.children
  tree_eq : file.tree = .ok root

namespace RuntimeLet

/-- A text that begins with an introducing word is introduced by it. -/
theorem introducer?_append {word rest : List Char} (hword : word ∈ introducerWords)
    (hends : ∀ c ∈ rest.head?, isWordChar c = false) :
    introducer? (word ++ rest) = some (0, word) := by
  have hafter : rest.head?.any isWordCharacter = false := by
    cases hhead : rest.head? with
    | none => rfl
    | some c =>
        cases hc : isWordCharacter c with
        | false => simp [hc]
        | true =>
            have hwordChar := isWordChar_of_isWordCharacter hc
            rw [hends c hhead] at hwordChar
            exact absurd hwordChar (by decide)
  rw [List.head?_eq_getElem?] at hafter
  simp only [introducerWords, List.mem_cons, List.not_mem_nil, or_false] at hword
  rcases hword with rfl | rfl
  · have hlead : leadingIntroducer? none (['l', 'e', 't'] ++ rest) = some ['l', 'e', 't'] := by
      simp [leadingIntroducer?, introducerWords, hafter]
    rw [introducer?, List.cons_append, introducerFrom?, ← List.cons_append, hlead]
  · have hlead : leadingIntroducer? none (['v', 'a', 'r'] ++ rest) = some ['v', 'a', 'r'] := by
      simp [leadingIntroducer?, introducerWords, hafter]
    rw [introducer?, List.cons_append, introducerFrom?, ← List.cons_append, hlead]

/-- A text that begins with `let` is introduced there. -/
theorem letOffset?_let {rest : List Char} (hends : ∀ c ∈ rest.head?, isWordChar c = false) :
    letOffset? (String.ofList (['l', 'e', 't'] ++ rest)) = some 0 := by
  unfold letOffset?
  rw [String.toList_ofList, introducer?_append (by simp [introducerWords]) hends]
  rfl

/-- A text that begins with `var` is introduced by no `let`. -/
theorem letOffset?_var {rest : List Char} (hends : ∀ c ∈ rest.head?, isWordChar c = false) :
    letOffset? (String.ofList (['v', 'a', 'r'] ++ rest)) = none := by
  unfold letOffset?
  rw [String.toList_ofList, introducer?_append (by simp [introducerWords]) hends]
  rfl

/-- A copy of the rule: only the severity of what it reports may differ. -/
def IsCopy (r : Rule) : Prop := ∃ severity, r = rule.withSeverity severity

variable {r : Rule} {file : SourceFile} {root : Declaration} {range : ByteRange}

/-- The span of a stored property directly in a struct or enum. -/
def Candidate (root : Declaration) (range : ByteRange) : Prop :=
  ∃ container d kind, (container, d) ∈ root.walk none ∧ d.kind = some kind ∧
    isCandidate kind d container = true ∧ d.range = some range

/-- **What is reported.**  A span is reported when it is one of a candidate and its
text is one of a `let` without value. -/
theorem mem_detectAll_iff (hr : IsCopy r) :
    range ∈ (r.detectAll file root).value ↔
      Candidate root range ∧
        ∃ text, file.text.sliceBytes range = .ok text ∧ isRuntimeLet text = true := by
  obtain ⟨severity, rfl⟩ := hr
  unfold Rule.detectAll
  rw [Declaration.value_visitAll, List.mem_flatMap]
  constructor
  · rintro ⟨⟨container, d⟩, hp, hmem⟩
    dsimp only at hmem
    cases hkind : d.kind with
    | none => simp [hkind] at hmem
    | some kind =>
        simp only [hkind, Rule.withSeverity, rule, detect] at hmem
        split at hmem
        next hcandidate =>
          cases hrange : d.range with
          | none => simp [hrange] at hmem
          | some whole =>
              simp only [hrange] at hmem
              cases hslice : file.text.sliceBytes whole with
              | error e => simp [hslice] at hmem
              | ok text =>
                  simp only [hslice, Logged.value_pure] at hmem
                  split at hmem
                  next hlet =>
                    obtain rfl := List.mem_singleton.mp hmem
                    exact ⟨⟨container, d, kind, hp, hkind, hcandidate, hrange⟩, text, hslice, hlet⟩
                  next => simp at hmem
        next => simp at hmem
  · rintro ⟨⟨container, d, kind, hp, hkind, hcandidate, hrange⟩, text, hslice, hlet⟩
    refine ⟨(container, d), hp, ?_⟩
    simp [hkind, Rule.withSeverity, rule, detect, hcandidate, hrange, hslice, hlet]

/-- The declarations that may be reported are variables inside another one. -/
theorem exists_of_isCandidate {kind : DeclarationKind} {d : Declaration}
    {container : Option Declaration} (h : isCandidate kind d container = true) :
    kind = .varInstance ∧ ∃ outer, container = some outer := by
  unfold isCandidate at h
  simp only [Bool.and_eq_true, beq_iff_eq] at h
  refine ⟨h.1.1.1, ?_⟩
  cases container with
  | none => simp at h
  | some outer => exact ⟨outer, rfl⟩

/-- **Candidates begin with an introducing word.**  It is a piece of its own. -/
theorem Candidate.introduced {pieces : List Piece} (hc : Candidate root range)
    (h : file.ReadFrom pieces root) :
    ∃ word ∈ introducerWords, ∃ front back rest,
      pieces = front ++ ⟨.word, word⟩ :: back ∧
        range.location = utf8Size (joinPieces front) ∧
          Occupies file.text.chars range (word ++ rest) ∧
            ∀ c ∈ rest.head?, isWordChar c = false := by
  obtain ⟨container, d, kind, hp, hkind, hcandidate, hrange⟩ := hc
  obtain ⟨rfl, outer, rfl⟩ := exists_of_isCandidate hcandidate
  rw [Declaration.mem_walk_root_iff] at hp
  obtain ⟨stretch, hwithin, hnode⟩ :=
    (Outline.holds_of_ofTokens h.tokens_eq).node (some outer, d) hp
  obtain ⟨kind, word, following, text, last, hlast, rfl, hword, hintroduces, hdkind, hdrange⟩ :=
    hnode.introduced
  obtain rfl := Option.some.inj (hdkind.symm.trans hkind)
  obtain rfl := Option.some.inj (hdrange.symm.trans hrange)
  have hlaid := (Token.laid_ofPieces h.cut_eq).within hwithin
  obtain ⟨rest, hoccupies, hends⟩ := Outline.exists_text_of_laid hlaid hword hlast
  have hmem : word ∈ Token.ofPieces pieces := hwithin.subset List.mem_cons_self
  obtain ⟨front, back, hpieces, hstart⟩ := Token.piece_of_word h.cut_eq hmem hword
  have htext : text.toList ∈ introducerWords := by
    simp only [DeclarationKind.introducers, List.mem_cons, List.not_mem_nil, or_false]
      at hintroduces
    rcases hintroduces with rfl | rfl <;> decide
  exact ⟨text.toList, htext, front, back, rest, hpieces, hstart, hoccupies, hends⟩

/-- A span that is reported if it is one of a candidate: its text begins with a
`let` that is a piece of its own, and gives no value. -/
structure Reported (file : SourceFile) (pieces : List Piece) (range : ByteRange)
    (front back : List Piece) (rest after : List Char) : Prop where
  pieces_eq : pieces = front ++ Piece.letWord :: back
  chars_eq : file.text.chars = joinPieces front ++ (['l', 'e', 't'] ++ rest) ++ after
  range_eq : range = ⟨utf8Size (joinPieces front), utf8Size (['l', 'e', 't'] ++ rest)⟩
  fits : range.stop ≤ maxOffset
  ends : ∀ c ∈ rest.head?, isWordChar c = false
  valueless : '=' ∉ rest

namespace Reported

variable {pieces front back : List Piece} {rest after : List Char}

/-- The text of the file, cut around the `let`. -/
theorem chars_split (h : Reported file pieces range front back rest after) :
    file.text.chars = joinPieces front ++ ['l', 'e', 't'] ++ (rest ++ after) := by
  simp [h.chars_eq]

/-- The text of a reported span. -/
theorem slice_eq (h : Reported file pieces range front back rest after) :
    file.text.sliceBytes range = .ok (String.ofList (['l', 'e', 't'] ++ rest)) := by
  refine Text.sliceBytes_eq_ok_iff.mpr ⟨⟨joinPieces front, after, ?_, ?_⟩, h.fits⟩
  · rw [String.toList_ofList]
    exact h.chars_eq
  · rw [String.toList_ofList]
    exact h.range_eq

/-- The text of a reported span is one of a `let` without value. -/
theorem isRuntimeLet_eq (h : Reported file pieces range front back rest after) :
    isRuntimeLet (String.ofList (['l', 'e', 't'] ++ rest)) = true := by
  have hvalueless := h.valueless
  unfold isRuntimeLet
  rw [letOffset?_let h.ends]
  simpa using hvalueless

end Reported

/-- A candidate with the text of a `let` without value begins with a `let` that is a
piece of its own. -/
theorem Candidate.reported {pieces : List Piece} {text : String} (hc : Candidate root range)
    (h : file.ReadFrom pieces root) (hslice : file.text.sliceBytes range = .ok text)
    (hlet : isRuntimeLet text = true) :
    ∃ front back rest after, Reported file pieces range front back rest after := by
  obtain ⟨word, hword, front, back, rest, hpieces, hlocation, hoccupies, hends⟩ :=
    hc.introduced h
  obtain ⟨hoccupies', hfits⟩ := Text.sliceBytes_eq_ok_iff.mp hslice
  have htext : text = String.ofList (word ++ rest) := by
    rw [hoccupies.unique hoccupies', String.ofList_toList]
  have hisLet : word = ['l', 'e', 't'] := by
    simp only [introducerWords, List.mem_cons, List.not_mem_nil, or_false] at hword
    rcases hword with rfl | rfl
    · rfl
    · rw [htext, isRuntimeLet, letOffset?_var hends] at hlet
      simp at hlet
  subst hisLet
  have hvalueless : '=' ∉ rest := by
    rw [htext, isRuntimeLet, letOffset?_let hends] at hlet
    simpa using hlet
  obtain ⟨lead, after, hchars, hspan⟩ := hoccupies
  have hjoin : joinPieces pieces = file.text.chars := cut_join h.cut_eq
  have hlead : joinPieces front = lead := by
    have hsize : utf8Size (joinPieces front) = utf8Size lead := by
      rw [← hlocation, hspan]
    rw [hpieces, joinPieces_append, hchars, List.append_assoc] at hjoin
    exact (append_inj_of_utf8Size_eq hjoin hsize).1
  subst hlead
  exact ⟨front, back, rest, after, hpieces, hchars, hspan, hfits, hends, hvalueless⟩

/-- **What is reported of a file that was read.**  The text of such a span begins
with a `let`. -/
theorem mem_detectAll_iff_reported {pieces : List Piece} (hr : IsCopy r)
    (h : file.ReadFrom pieces root) :
    range ∈ (r.detectAll file root).value ↔
      Candidate root range ∧
        ∃ front back rest after, Reported file pieces range front back rest after := by
  rw [mem_detectAll_iff hr]
  constructor
  · rintro ⟨hc, text, hslice, hlet⟩
    exact ⟨hc, hc.reported h hslice hlet⟩
  · rintro ⟨hc, front, back, rest, after, hreported⟩
    exact ⟨hc, _, hreported.slice_eq, hreported.isRuntimeLet_eq⟩

namespace Reported

variable {pieces front back : List Piece} {rest after : List Char}

/-- A reported span begins where its `let` does. -/
theorem locate?_eq (h : Reported file pieces range front back rest after) (r : Rule) :
    r.locate? file range = pure (some (.behind file.path (joinPieces front))) := by
  have hchars := Text.toCharRange_eq_ok_iff.mpr
    ⟨_, _, _, h.chars_eq, h.range_eq, rfl, h.fits⟩
  have hlocation :=
    Location.ofCharOffset?_of_append (h.chars_eq.trans (List.append_assoc _ _ _)) file.path
  unfold Rule.locate?
  rw [hchars]
  dsimp only
  rw [hlocation]

/-- The part to replace is the `let`. -/
theorem letRange_eq (h : Reported file pieces range front back rest after) :
    letRange file range = some ⟨utf8Size (joinPieces front), 3⟩ := by
  unfold letRange
  rw [h.slice_eq]
  simp only [letOffset?_let h.ends, Option.map_some, h.range_eq, Nat.add_zero]

/-- The part to replace, in bytes and in characters. -/
theorem part_fits (h : Reported file pieces range front back rest after) :
    range.contains ⟨utf8Size (joinPieces front), 3⟩ = true ∧
      file.text.sliceBytes ⟨utf8Size (joinPieces front), 3⟩ = .ok "let" ∧
        file.text.toCharRange ⟨utf8Size (joinPieces front), 3⟩ =
          .ok ⟨(joinPieces front).length, 3⟩ := by
  have hthree : utf8Size ['l', 'e', 't'] = 3 := by decide
  have hle : utf8Size (joinPieces front) + 3 ≤ range.stop := by
    rw [h.range_eq, ByteRange.stop, utf8Size_append, hthree]
    dsimp only
    omega
  have hfits : ByteRange.stop ⟨utf8Size (joinPieces front), 3⟩ ≤ maxOffset :=
    Nat.le_trans hle h.fits
  have hstart : range.location = utf8Size (joinPieces front) := by rw [h.range_eq]
  refine ⟨?_, ?_, ?_⟩
  · exact ByteRange.contains_eq_true_iff.mpr ⟨Nat.le_of_eq hstart, hle, h.fits⟩
  · exact Text.sliceBytes_eq_ok_iff.mpr ⟨⟨joinPieces front, rest ++ after, h.chars_split, by
      simp [hthree]⟩, hfits⟩
  · exact Text.toCharRange_eq_ok_iff.mpr
      ⟨joinPieces front, ['l', 'e', 't'], rest ++ after, h.chars_split, by rw [hthree], rfl,
        hfits⟩

/-- The part to replace maps onto the text. -/
theorem toByteRange_eq (h : Reported file pieces range front back rest after) :
    file.text.toByteRange ⟨(joinPieces front).length, 3⟩ =
      .ok ⟨utf8Size (joinPieces front), 3⟩ := by
  have hle : (joinPieces front).length + 3 ≤ maxOffset := by
    have hsize := length_le_utf8Size (joinPieces front)
    have hrest := length_le_utf8Size (['l', 'e', 't'] ++ rest)
    have hfits := h.fits
    rw [h.range_eq, ByteRange.stop] at hfits
    rw [List.length_append] at hrest
    have hthree : ['l', 'e', 't'].length = 3 := rfl
    dsimp only at hfits
    omega
  have hthree : utf8Size ['l', 'e', 't'] = 3 := by decide
  exact Text.toByteRange_eq_ok_iff.mpr
    ⟨joinPieces front, ['l', 'e', 't'], rest ++ after, h.chars_split, rfl, by rw [hthree], hle⟩

/-- **The correction of what is reported.**  Unless it is silenced on the line of
the `let`, the `let` becomes `var`. -/
theorem value_correction?_eq (h : Reported file pieces range front back rest after) (r : Rule)
    (index : Nat) (silencing : Silencing) :
    (r.correction? fix index file silencing range).value =
      if silencing.isDisabled (1 + lineBreaks (joinPieces front)) r.id then none
      else some ⟨r.id, index, ⟨(joinPieces front).length, 3⟩, "var",
        .behind file.path (joinPieces front)⟩ := by
  obtain ⟨hcontains, hslice, hpart⟩ := h.part_fits
  have hlocation :=
    Location.ofCharOffset?_of_append (h.chars_eq.trans (List.append_assoc _ _ _)) file.path
  have hfix : fix.range file range = some ⟨utf8Size (joinPieces front), 3⟩ := h.letRange_eq
  have hvar : fix.replacement file ⟨utf8Size (joinPieces front), 3⟩ = some "var" := by
    simp [fix, varForLet, hslice]
  unfold Rule.correction?
  simp [h.locate?_eq r, hfix, hcontains, hvar, hpart, hlocation, Location.behind,
    LinePosition.behind]

/-- What is corrected of a reported span, wherever it is said to be. -/
theorem value_correction? (h : Reported file pieces range front back rest after) (r : Rule)
    (index : Nat) (silencing : Silencing) :
    ∃ location, (r.correction? fix index file silencing range).value =
      if silencing.isDisabled (1 + lineBreaks (joinPieces front)) r.id then none
      else some ⟨r.id, index, ⟨(joinPieces front).length, 3⟩, "var", location⟩ :=
  ⟨_, h.value_correction?_eq r index silencing⟩

/-- **The violation at what is reported.**  Unless it is silenced on the line of the
`let`, there is one. -/
theorem violation?_eq (h : Reported file pieces range front back rest after) (r : Rule)
    (silencing : Silencing) :
    r.violation? file silencing range =
      pure (if silencing.isDisabled (1 + lineBreaks (joinPieces front)) r.id then none
        else some ⟨r.id, r.description.name, r.severity, r.message file range,
          .behind file.path (joinPieces front)⟩) := by
  have hbind : r.violation? file silencing range =
      if silencing.isDisabled (1 + lineBreaks (joinPieces front)) r.id then pure none
      else pure (some ⟨r.id, r.description.name, r.severity, r.message file range,
        .behind file.path (joinPieces front)⟩) := by
    unfold Rule.violation?
    rw [h.locate?_eq r]
    rfl
  rw [hbind]
  split <;> rfl

/-- **What is silenced is no violation.** -/
theorem value_violation? (h : Reported file pieces range front back rest after) {r : Rule}
    {silencing : Silencing}
    (hdisabled : silencing.isDisabled (1 + lineBreaks (joinPieces front)) r.id = true) :
    (r.violation? file silencing range).value = none := by
  rw [h.violation?_eq r silencing, if_pos hdisabled]
  rfl

end Reported

end RuntimeLet

end DeclLint
