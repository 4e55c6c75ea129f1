import DeclLint.Proofs.Outline.Node
import DeclLint.Proofs.Source.TokenLayout

/-!
# Where declarations stand

The tokens of a text stand in it one behind another, and a declaration is read
from a stretch of them, so it takes up the text from its first token to its last
one.  Siblings are read from stretches that do not overlap, and what is inside a
declaration from the stretch between its braces; everything about the places of
a tree follows from these two facts.

* `Token.Stands.gap` — what is written between two tokens;
* `Outline.Holds.spanned`, `Outline.Holds.apart` — the places of siblings;
* `Outline.Node.placed` — the place of a declaration, of its braces and of what
  is inside;
* `declarationTree_placed` — every declaration of a tree is well placed.
-/

namespace DeclLint

namespace Token

/-- Tokens that stand in a text one behind another. -/
structure Laid (source : List Char) (ts : List Token) : Prop where
  stands : ∀ t ∈ ts, t.StandsIn source
  ordered : ts.Pairwise fun a b => a.stop ≤ b.start

theorem laid_ofPieces {source : List Char} {pieces : List Piece}
    (h : cut source = .ok pieces) : Laid source (ofPieces pieces) := by
  constructor
  · intro t ht
    exact standsIn_of_mem h ht
  · exact pairwise_ofPieces h

/-- A stretch of tokens that are laid out is laid out. -/
theorem Laid.within {source : List Char} {stretch ts : List Token} (h : Laid source ts)
    (hwithin : stretch <:+: ts) : Laid source stretch := by
  constructor
  · intro t ht
    exact h.stands t (hwithin.subset ht)
  · exact h.ordered.sublist hwithin.sublist

/-- **The gap between two tokens.**  Of two tokens that stand in a text, what is
before the second one is what is before the first, its text, and a gap. -/
theorem Stands.gap {a b : Token} {source front text back front' text' back' : List Char}
    (ha : a.Stands front text back) (hsource : source = front ++ text ++ back)
    (hb : b.Stands front' text' back') (hsource' : source = front' ++ text' ++ back')
    (hle : a.stop ≤ b.start) :
    ∃ gap, front' = front ++ text ++ gap ∧ back = gap ++ text' ++ back' := by
  have hfirst : front ++ text <+: source := ⟨back, hsource.symm⟩
  have hsecond : front' <+: source := ⟨text' ++ back', by simp [hsource']⟩
  have hsize : utf8Size (front ++ text) ≤ utf8Size front' := by
    rw [utf8Size_append, ← ha.stop_eq, ← hb.start_eq]
    exact hle
  obtain ⟨gap, hgap⟩ := prefix_of_utf8Size_le hfirst hsecond hsize
  refine ⟨gap, hgap.symm, ?_⟩
  have hboth : front ++ text ++ back = front ++ text ++ (gap ++ text' ++ back') := by
    rw [← hsource, hsource', ← hgap]
    simp
  exact List.append_cancel_left hboth

/-- A word does not end later than what follows it among tokens laid out. -/
theorem Laid.start_lt_stop_of_mem {source : List Char} {word last : Token}
    {following : List Token} (h : Laid source (word :: following))
    (hlast : last ∈ word :: following) : word.start < last.stop := by
  have hword := (h.stands word List.mem_cons_self).start_lt_stop
  rcases List.mem_cons.mp hlast with rfl | hmem
  · exact hword
  · have hlast := (h.stands last (List.mem_cons_of_mem _ hmem)).start_lt_stop
    have hle := List.rel_of_pairwise_cons h.ordered hmem
    omega

end Token

namespace Declaration

/-- One declaration ends before another one begins. -/
def Before (d e : Declaration) : Prop :=
  ∃ r s, d.range = some r ∧ e.range = some s ∧ r.stop ≤ s.location

/-- What a declaration of a source text takes up and how: the text of its span
begins with a word that introduces its kind and is no part of a longer word, a
body is the end of that text and stands in braces, and what is inside lies in
order between them. -/
structure Placed (source : List Char) (d : Declaration) (kind : DeclarationKind)
    (range : ByteRange) (text : List Char) : Prop where
  kind_eq : d.kind = some kind
  range_eq : d.range = some range
  occupies : Occupies source range text
  length_pos : 0 < range.length
  introduced : ∃ word ∈ kind.introducers, ∃ rest, text = word.toList ++ rest ∧
    ∀ c ∈ rest.head?, isWordChar c = false
  leaf : kind.isVariable = true → d.children = []
  embraced : d.children ≠ [] → d.bodyLength.isSome = true
  body : ∀ b ∈ d.bodyLength, ∃ before inner, text = before ++ '{' :: (inner ++ ['}']) ∧
    b = utf8Size inner
  inside : ∀ b ∈ d.bodyLength, ∀ child ∈ d.children, ∃ r, child.range = some r ∧
    range.stop - 1 - b ≤ r.location ∧ r.stop ≤ range.stop - 1
  apart : d.children.Pairwise Before

end Declaration

namespace Outline

/-- A declaration whose span is cut out by two of the given tokens. -/
def Spanned (ts : List Token) (d : Declaration) : Prop :=
  ∃ r, d.range = some r ∧ (∃ first ∈ ts, r.location = first.start) ∧
    ∃ last ∈ ts, r.stop = last.stop

theorem Spanned.mono {xs ys : List Token} {d : Declaration} (h : Spanned xs d)
    (hsub : xs ⊆ ys) : Spanned ys d := by
  obtain ⟨r, hr, ⟨first, hfirst, hlocation⟩, last, hlast, hstop⟩ := h
  exact ⟨r, hr, ⟨first, hsub hfirst, hlocation⟩, last, hsub hlast, hstop⟩

/-- What two stretches span does not overlap if the stretches do not. -/
theorem Spanned.before {xs ys : List Token} {d e : Declaration} (hd : Spanned xs d)
    (he : Spanned ys e) (h : ∀ a ∈ xs, ∀ b ∈ ys, a.stop ≤ b.start) : d.Before e := by
  obtain ⟨r, hr, -, last, hlast, hstop⟩ := hd
  obtain ⟨s, hs, ⟨first, hfirst, hlocation⟩, -⟩ := he
  refine ⟨r, s, hr, hs, ?_⟩
  rw [hstop, hlocation]
  exact h last hlast first hfirst

/-- The span between two offsets in order ends at the second one. -/
theorem stop_between {start stop : Nat} (h : start ≤ stop) :
    (ByteRange.between start stop).stop = stop := by
  unfold ByteRange.between ByteRange.stop
  dsimp only
  omega

/-- A declaration without body is spanned by its tokens. -/
theorem Declares.spanned {source : List Char} {scope : Scope} {introduction : List Token}
    {d : Declaration} (h : Declares scope introduction d)
    (hlaid : Token.Laid source introduction) : Spanned introduction d := by
  cases h with
  | @function word text following modifiers hword htext
  | @«variable» word text following modifiers hword htext =>
      obtain ⟨last, hlast, hstop⟩ := exists_lastStop hword following
      have hlt := hlaid.start_lt_stop_of_mem hlast
      refine ⟨_, rfl, ⟨word, List.mem_cons_self, rfl⟩, last, hlast, ?_⟩
      rw [hstop, stop_between (Nat.le_of_lt hlt)]

/-- What an introduction and its body declare begins at the introducing word and
ends at the closing brace. -/
theorem Opens.range_of_mem_declare {scope inside : Scope} {introduction : List Token}
    {owner : Owner} {brace closing : Token} {members : List Declaration} {d : Declaration}
    (h : Opens scope introduction owner inside) (howner : owner ≠ .block)
    (hd : d ∈ owner.declare brace closing members) :
    ∃ word following text, introduction = word :: following ∧ word.lexeme = .word text ∧
      d.range = some (ByteRange.between word.start closing.stop) ∧
      d.bodyLength = some (closing.start - brace.stop) ∧
      (d.children = members ∨ d.children = []) := by
  cases h with
  | block => exact absurd rfl howner
  | type following hword htext =>
      obtain rfl := List.mem_singleton.mp hd
      exact ⟨_, following, _, rfl, hword, rfl, rfl, .inl rfl⟩
  | function following modifiers hword htext =>
      obtain rfl := List.mem_singleton.mp hd
      exact ⟨_, following, _, rfl, hword, rfl, rfl, .inl rfl⟩
  | accessors following modifiers hword htext =>
      obtain rfl := List.mem_singleton.mp hd
      exact ⟨_, following, _, rfl, hword, rfl, rfl, .inr rfl⟩

/-- The declarations that a body gives are spanned by its tokens, those inside a
block by the tokens there. -/
theorem Opens.spanned_declare {source : List Char} {scope inside : Scope}
    {introduction inner : List Token} {owner : Owner} {brace closing : Token}
    {members : List Declaration} (h : Opens scope introduction owner inside)
    (hlaid : Token.Laid source (introduction ++ brace :: (inner ++ [closing])))
    (hmembers : ∀ d ∈ members, Spanned inner d) :
    ∀ d ∈ owner.declare brace closing members,
      Spanned (introduction ++ brace :: (inner ++ [closing])) d := by
  intro d hd
  by_cases howner : owner = .block
  · subst howner
    exact (hmembers d hd).mono (by
      intro t ht
      simp [ht])
  · obtain ⟨word, following, text, rfl, hword, hrange, -⟩ := h.range_of_mem_declare howner hd
    have hlast : closing ∈ word :: (following ++ brace :: (inner ++ [closing])) := by simp
    have hlt := hlaid.start_lt_stop_of_mem hlast
    refine ⟨_, hrange, ⟨word, by simp, rfl⟩, closing, hlast, ?_⟩
    rw [stop_between (Nat.le_of_lt hlt)]

variable {source : List Char} {scope : Scope} {ts : List Token} {ds : List Declaration}

/-- **Declarations are spanned by their tokens.** -/
theorem Holds.spanned (h : Holds scope ts ds) (hlaid : Token.Laid source ts) :
    ∀ d ∈ ds, Spanned ts d := by
  induction h with
  | nil => simp
  | pass t _ ih =>
      intro d hd
      have htail := hlaid.within (List.suffix_cons t _).isInfix
      exact (ih htail d hd).mono (List.subset_cons_self t _)
  | @declare scope introduction ts d ds hdeclares _ ih =>
      intro e he
      rcases List.mem_cons.mp he with rfl | he
      · have hfirst := hlaid.within (List.prefix_append introduction ts).isInfix
        exact (hdeclares.spanned hfirst).mono (List.subset_append_left _ _)
      · have htail := hlaid.within (List.suffix_append introduction ts).isInfix
        exact (ih htail e he).mono (List.subset_append_right _ _)
  | @body scope inside introduction inner ts owner brace closing ds members
      hopens _ _ _ _ ihinner ih =>
      intro d hd
      have hinner := inner_within_body introduction inner ts brace closing
      have hmembers := ihinner (hlaid.within hinner)
      rw [append_body_eq] at hlaid ⊢
      rcases List.mem_append.mp hd with hd | hd
      · have hfirst := hlaid.within (List.prefix_append _ ts).isInfix
        exact (hopens.spanned_declare hfirst hmembers d hd).mono (List.subset_append_left _ _)
      · have htail := hlaid.within (List.suffix_append _ ts).isInfix
        exact (ih htail d hd).mono (List.subset_append_right _ _)

/-- **Siblings are in order and apart.** -/
theorem Holds.apart (h : Holds scope ts ds) (hlaid : Token.Laid source ts) :
    ds.Pairwise Declaration.Before := by
  induction h with
  | nil => exact .nil
  | pass t _ ih => exact ih (hlaid.within (List.suffix_cons t _).isInfix)
  | @declare scope introduction ts d ds hdeclares tail ih =>
      have hfirst := hlaid.within (List.prefix_append introduction ts).isInfix
      have htail := hlaid.within (List.suffix_append introduction ts).isInfix
      have horder := (List.pairwise_append.mp hlaid.ordered).2.2
      refine List.pairwise_cons.mpr ⟨?_, ih htail⟩
      intro e he
      exact (hdeclares.spanned hfirst).before (tail.spanned htail e he) horder
  | @body scope inside introduction inner ts owner brace closing ds members
      hopens _ _ hholds tail ihinner ih =>
      have hinner := inner_within_body introduction inner ts brace closing
      have hlaidInner := hlaid.within hinner
      rw [append_body_eq] at hlaid
      have hfirst := hlaid.within (List.prefix_append _ ts).isInfix
      have htail := hlaid.within (List.suffix_append _ ts).isInfix
      have horder := (List.pairwise_append.mp hlaid.ordered).2.2
      refine List.pairwise_append.mpr ⟨?_, ih htail, ?_⟩
      · by_cases howner : owner = .block
        · subst howner
          exact ihinner hlaidInner
        · obtain ⟨d, hd, -⟩ := Owner.declare_eq_singleton howner brace closing members
          rw [hd]
          exact List.pairwise_singleton _ d
      · intro d hd e he
        have hspanned := hopens.spanned_declare hfirst (hholds.spanned hlaidInner) d hd
        exact hspanned.before (tail.spanned htail e he) horder

/-- The text of a stretch from a word to a later token, or to the word itself,
begins with the word and ends with the token. -/
theorem exists_text_of_laid {word last : Token} {following : List Token} {text : String}
    (hlaid : Token.Laid source (word :: following)) (hword : word.lexeme = .word text)
    (hlast : last ∈ word :: following) :
    ∃ rest, Occupies source (ByteRange.between word.start last.stop) (text.toList ++ rest) ∧
      ∀ c ∈ rest.head?, isWordChar c = false := by
  obtain ⟨front, wordText, back, hsource, hstands⟩ := hlaid.stands word List.mem_cons_self
  obtain ⟨hspells, -, -⟩ : wordText = text.toList ∧ _ ∧ _ := by
    have hspells := hstands.spells
    rwa [hword] at hspells
  subst hspells
  rcases List.mem_cons.mp hlast with rfl | hmem
  · refine ⟨[], ⟨front, back, by simp [hsource], ?_⟩, by simp⟩
    simp [ByteRange.between, hstands.start_eq, hstands.stop_eq]
  · obtain ⟨front', lastText, back', hsource', hstands'⟩ :=
      hlaid.stands last (List.mem_cons_of_mem _ hmem)
    have hle := List.rel_of_pairwise_cons hlaid.ordered hmem
    obtain ⟨gap, hfront, hback⟩ := hstands.gap hsource hstands' hsource' hle
    refine ⟨gap ++ lastText, ⟨front, back', by simp [hsource, hback], ?_⟩, ?_⟩
    · simp [ByteRange.between, hstands.start_eq, hstands'.stop_eq, hfront]
      omega
    · intro c hc
      have hisWord : word.isWord = true := by simp [Token.isWord, Token.word?, hword]
      apply hstands.ends hisWord c
      rw [hback, List.head?_append]
      simp [Option.mem_def.mp hc]

/-- A mark is as long as its character. -/
theorem stop_eq_of_mark {t : Token} {c : Char} (h : t.StandsIn source)
    (hmark : t.lexeme = .mark c) : t.stop = t.start + c.utf8Size := by
  obtain ⟨front, text, back, -, hstands⟩ := h
  have hspells := hstands.spells
  rw [hmark] at hspells
  rw [hstands.stop_eq, hstands.start_eq, show text = [c] from hspells]
  simp

/-- The text of a stretch that ends with a body ends with what stands in the
braces. -/
theorem exists_body_of_laid {word brace closing : Token} {following inner : List Token}
    (hlaid : Token.Laid source (word :: following ++ brace :: (inner ++ [closing])))
    (hbrace : brace.lexeme = .mark '{') (hclosing : closing.lexeme = .mark '}') :
    ∃ before gap, Occupies source (ByteRange.between word.start closing.stop)
        (before ++ '{' :: (gap ++ ['}'])) ∧
      closing.start - brace.stop = utf8Size gap := by
  obtain ⟨-, hbody, horder⟩ := List.pairwise_append.mp hlaid.ordered
  have hopen : word.stop ≤ brace.start :=
    horder word List.mem_cons_self brace List.mem_cons_self
  have hclose : brace.stop ≤ closing.start := List.rel_of_pairwise_cons hbody (by simp)
  obtain ⟨front, text, back, hsource, hword⟩ := hlaid.stands word (by simp)
  obtain ⟨front₁, braceText, back₁, hsource₁, hstands₁⟩ := hlaid.stands brace (by simp)
  obtain ⟨front₂, closingText, back₂, hsource₂, hstands₂⟩ := hlaid.stands closing (by simp)
  obtain ⟨lead, hfront₁, -⟩ := hword.gap hsource hstands₁ hsource₁ hopen
  obtain ⟨gap, hfront₂, -⟩ := hstands₁.gap hsource₁ hstands₂ hsource₂ hclose
  obtain rfl : braceText = ['{'] := by
    have hspells := hstands₁.spells
    rwa [hbrace] at hspells
  obtain rfl : closingText = ['}'] := by
    have hspells := hstands₂.spells
    rwa [hclosing] at hspells
  refine ⟨text ++ lead, gap, ⟨front, back₂, ?_, ?_⟩, ?_⟩
  · simp [hsource₂, hfront₂, hfront₁]
  · simp [ByteRange.between, hword.start_eq, hstands₂.stop_eq, hfront₂, hfront₁]
    omega
  · rw [hstands₁.stop_eq, hstands₂.start_eq, hfront₂]
    simp
    omega

/-- **A body ends its declaration.**  What is inside is spanned by the tokens
between the brace that opens the body and the one that closes it, which is the
last token of the declaration. -/
theorem Node.body_inside {stretch : List Token} {d : Declaration} {range : ByteRange}
    (h : Node stretch d) (hlaid : Token.Laid source stretch) (hrange : d.range = some range)
    {b : Nat} (hb : d.bodyLength = some b) :
    (∃ before gap, Occupies source range (before ++ '{' :: (gap ++ ['}'])) ∧
      b = utf8Size gap) ∧
    ∀ child ∈ d.children, ∃ r, child.range = some r ∧
      range.stop - 1 - b ≤ r.location ∧ r.stop ≤ range.stop - 1 := by
  cases h with
  | bare hd => cases hd <;> simp at hb
  | @body _ _ introduction inner owner brace closing members _
      hopens howner hbrace hclosing hholds hd =>
      obtain ⟨word, following, text, rfl, -, hdrange, hdbody, hchildren⟩ :=
        hopens.range_of_mem_declare howner hd
      obtain rfl := Option.some.inj (hdrange.symm.trans hrange)
      obtain rfl := Option.some.inj (hdbody.symm.trans hb)
      refine ⟨exists_body_of_laid hlaid hbrace hclosing, ?_⟩
      intro child hchild
      have hmember : child ∈ members := by
        rcases hchildren with heq | heq
        · exact heq ▸ hchild
        · simp [heq] at hchild
      have hinner := inner_within_body (word :: following) inner [] brace closing
      obtain ⟨r, hr, ⟨first, hfirst, hlocation⟩, last, hlast, hstop⟩ :=
        hholds.spanned (hlaid.within hinner) child hmember
      have hordered := (List.pairwise_append.mp hlaid.ordered).2.1
      have hopen : brace.stop ≤ first.start :=
        List.rel_of_pairwise_cons hordered (by simp [hfirst])
      have hclose : last.stop ≤ closing.start :=
        (List.pairwise_append.mp hordered.of_cons).2.2 last hlast closing (by simp)
      have hbetween : brace.stop ≤ closing.start := List.rel_of_pairwise_cons hordered (by simp)
      have hsize := stop_eq_of_mark (hlaid.stands closing (by simp)) hclosing
      have hone : '}'.utf8Size = 1 := by decide
      have hlt : word.start < closing.stop := hlaid.start_lt_stop_of_mem (by simp)
      refine ⟨r, hr, ?_, ?_⟩
      · rw [stop_between (Nat.le_of_lt hlt), hlocation]
        omega
      · rw [stop_between (Nat.le_of_lt hlt), hstop]
        omega

/-- What is inside a declaration is in order and apart, and there is nothing
inside one without body. -/
theorem Node.children_apart {stretch : List Token} {d : Declaration} (h : Node stretch d)
    (hlaid : Token.Laid source stretch) :
    (d.children ≠ [] → d.bodyLength.isSome = true) ∧
      d.children.Pairwise Declaration.Before := by
  cases h with
  | bare hd =>
      have hnone : d.children = [] := by
        cases hd <;> rfl
      simp [hnone]
  | @body _ _ introduction inner owner brace closing members _
      hopens howner hbrace hclosing hholds hd =>
      obtain ⟨-, -, -, -, -, -, hdbody, hchildren⟩ := hopens.range_of_mem_declare howner hd
      refine ⟨fun _ => by simp [hdbody], ?_⟩
      rcases hchildren with heq | heq
      · have hinner := inner_within_body introduction inner [] brace closing
        rw [heq]
        exact hholds.apart (hlaid.within hinner)
      · simp [heq]

/-- **What a declaration takes up.**  The text of its span is the one that its
introducing word begins, and the one that its body ends. -/
theorem Node.placed {stretch : List Token} {d : Declaration} (h : Node stretch d)
    (hlaid : Token.Laid source stretch) : ∃ kind range text, d.Placed source kind range text := by
  obtain ⟨kind, word, following, text, last, hlast, hstretch, hword, hkind, hdkind, hdrange⟩ :=
    h.introduced
  have hwords : Token.Laid source (word :: following) := hstretch ▸ hlaid
  obtain ⟨rest, hoccupies, hends⟩ := exists_text_of_laid hwords hword hlast
  have hlt := hwords.start_lt_stop_of_mem hlast
  obtain ⟨hembraced, hapart⟩ := h.children_apart hlaid
  refine ⟨kind, ByteRange.between word.start last.stop, text.toList ++ rest, hdkind, hdrange,
    hoccupies, ?_, ⟨text, hkind, rest, rfl, hends⟩, h.children_of_isVariable hdkind, hembraced,
    ?_, ?_, hapart⟩
  · unfold ByteRange.between
    dsimp only
    omega
  · intro b hb
    obtain ⟨⟨before, gap, hbody, hsize⟩, -⟩ := h.body_inside hlaid hdrange hb
    exact ⟨before, gap, hoccupies.unique hbody, hsize⟩
  · intro b hb
    exact (h.body_inside hlaid hdrange hb).2

end Outline

/-- **Trees are well formed.**  The root of a tree is the whole text; below it
every declaration is placed in the text, and so is what it contains in it. -/
theorem declarationTree_placed {source : String} {root : Declaration}
    (h : declarationTree source = .ok root) :
    root.kind = none ∧ root.range = some ⟨0, source.utf8ByteSize⟩ ∧
      root.children.Pairwise Declaration.Before ∧
      ∀ container d, (some container, d) ∈ root.walk none →
        ∃ kind range text, d.Placed source.toList kind range text := by
  obtain ⟨pieces, hcut, htokens, hkind, hrange⟩ := exists_cut_of_declarationTree h
  have hlaid := Token.laid_ofPieces hcut
  have hholds := Outline.holds_of_ofTokens htokens
  refine ⟨hkind, hrange, hholds.apart hlaid, ?_⟩
  intro container d hd
  rw [Declaration.mem_walk_root_iff] at hd
  obtain ⟨stretch, hwithin, hnode⟩ := hholds.node _ hd
  exact hnode.placed (hlaid.within hwithin)

/-- The trees of a text with a property in a struct are well formed, the property
among them. -/
theorem declarationTree_placed_struct :
    ∃ root container kind range text,
      declarationTree "struct É \x7b let b: Int \x7d" = .ok root ∧ root.children = [container] ∧
        Declaration.Placed "struct É \x7b let b: Int \x7d".toList container kind range text := by
  have htree : declarationTree "struct É \x7b let b: Int \x7d" = .ok
      { range := some ⟨0, 24⟩
        children :=
          [{ kind := some .structType
             range := some ⟨0, 24⟩
             bodyLength := some 12
             children := [{ kind := some .varInstance, range := some ⟨12, 10⟩ }] }] } := by
    with_unfolding_all rfl
  obtain ⟨-, -, -, hplaced⟩ := declarationTree_placed htree
  obtain ⟨kind, range, text, h⟩ := hplaced _ _ (by
    rw [Declaration.walk_eq, Declaration.walkAll_cons, Declaration.walk_eq]
    exact List.mem_cons_of_mem _ List.mem_cons_self)
  exact ⟨_, _, kind, range, text, htree, rfl, h⟩

end DeclLint
