import DeclLint.Proofs.Source.NestedComment
import DeclLint.Proofs.Source.TokenLayout
import DeclLint.Proofs.Text.Boundary
import DeclLint.Proofs.Text.Byte

/-!
# How tokens and comments share a text

Every byte of a text belongs to one piece, and two pieces are apart.  A token lies in one
piece, a line comment and a block comment are each a piece, so what holds of the tokens and
comments of a text is read off the pieces they belong to (`Piece.StandsAt`): two of them are
apart unless they belong to the same piece, and what is in none of them is in a blank.

* `Piece.StandsAt.cases` — two pieces are one, or apart;
* `Piece.exists_standsAt` — every byte is in a piece;
* `Token.exists_standsAt`, `Token.exists_subset` — the piece of a token, and back;
* `tokens_partition` — tokens, line comments and block comments share the text.
-/

namespace DeclLint

namespace Piece

/-- A piece stands at an offset among the pieces of a text. -/
def StandsAt (pieces : List Piece) (offset : Nat) (p : Piece) : Prop :=
  ∃ front back, pieces = front ++ p :: back ∧ offset = utf8Size (joinPieces front)

/-- The spans of the pieces of a kind, where the first piece stands at an offset. -/
def spansFrom (kind : PieceKind) (offset : Nat) : List Piece → List ByteRange
  | [] => []
  | p :: ps =>
      (if p.kind = kind then [⟨offset, utf8Size p.text⟩] else []) ++
        spansFrom kind (offset + utf8Size p.text) ps

/-- The spans of the pieces of a kind. -/
def spans (kind : PieceKind) (pieces : List Piece) : List ByteRange := spansFrom kind 0 pieces

variable {pieces : List Piece} {p q : Piece} {offset offset' : Nat} {kind : PieceKind}
  {r : ByteRange}

/-- The span of a piece begins behind the pieces before it. -/
theorem mem_spansFrom_iff {ps : List Piece} :
    r ∈ spansFrom kind offset ps ↔ ∃ front p back, ps = front ++ p :: back ∧ p.kind = kind ∧
      r = ⟨offset + utf8Size (joinPieces front), utf8Size p.text⟩ := by
  induction ps generalizing offset with
  | nil => simp [spansFrom]
  | cons q ps ih =>
      rw [spansFrom, List.mem_append, ih]
      constructor
      · rintro (hfirst | ⟨front, p, back, rfl, hkind, rfl⟩)
        · split at hfirst
          next hkind => exact ⟨[], q, ps, rfl, hkind, List.mem_singleton.mp hfirst⟩
          next => simp at hfirst
        · exact ⟨q :: front, p, back, rfl, hkind, by simp [Nat.add_assoc]⟩
      · rintro ⟨front, p, back, hsplit, hkind, rfl⟩
        cases front with
        | nil =>
            obtain ⟨rfl, rfl⟩ := List.cons.inj hsplit
            left
            simp [hkind]
        | cons q' front =>
            obtain ⟨rfl, rfl⟩ := List.cons.inj hsplit
            right
            exact ⟨front, p, back, rfl, hkind, by simp [Nat.add_assoc]⟩

/-- The spans of a kind are those of the pieces of that kind. -/
theorem mem_spans_iff :
    r ∈ spans kind pieces ↔
      ∃ p, StandsAt pieces r.location p ∧ p.kind = kind ∧ r.length = utf8Size p.text := by
  rw [spans, mem_spansFrom_iff]
  constructor
  · rintro ⟨front, p, back, hsplit, hkind, rfl⟩
    exact ⟨p, ⟨front, back, hsplit, Nat.zero_add _⟩, hkind, rfl⟩
  · rintro ⟨p, ⟨front, back, hsplit, hlocation⟩, hkind, hlength⟩
    exact ⟨front, p, back, hsplit, hkind, by rw [Nat.zero_add, ← hlocation, ← hlength]⟩

/-- Spans of pieces lie one behind another. -/
theorem pairwise_spansFrom (kind : PieceKind) (offset : Nat) (ps : List Piece) :
    (spansFrom kind offset ps).Pairwise fun a b => a.stop ≤ b.location := by
  induction ps generalizing offset with
  | nil => exact .nil
  | cons p ps ih =>
      rw [spansFrom]
      refine List.pairwise_append.mpr ⟨?_, ih _, ?_⟩
      · split
        · exact List.pairwise_singleton _ _
        · exact .nil
      · intro a ha b hb
        obtain ⟨front, q, back, -, -, rfl⟩ := mem_spansFrom_iff.mp hb
        split at ha
        next =>
          obtain rfl := List.mem_singleton.mp ha
          exact Nat.le_add_right _ _
        next => simp at ha

namespace StandsAt

/-- **Two pieces are apart**, unless they are one. -/
theorem cases (h : StandsAt pieces offset p) (h' : StandsAt pieces offset' q) :
    (offset = offset' ∧ p = q) ∨ offset + utf8Size p.text ≤ offset' ∨
      offset' + utf8Size q.text ≤ offset := by
  obtain ⟨front, back, rfl, rfl⟩ := h
  obtain ⟨front', back', hsplit, rfl⟩ := h'
  rcases List.append_eq_append_iff.mp hsplit with
    ⟨between, rfl, hbetween⟩ | ⟨between, rfl, hbetween⟩
  · cases between with
    | nil =>
        left
        exact ⟨by simp, (List.cons.inj hbetween).1⟩
    | cons p' between =>
        obtain ⟨rfl, -⟩ := List.cons.inj hbetween
        right; left
        simp
  · cases between with
    | nil =>
        left
        exact ⟨by simp, (List.cons.inj hbetween).1.symm⟩
    | cons q' between =>
        obtain ⟨rfl, -⟩ := List.cons.inj hbetween
        right; right
        simp

variable {source : List Char}

/-- A piece takes up its characters of the text, and fits what follows it. -/
theorem exists_text (h : cut source = .ok pieces) (hp : StandsAt pieces offset p) :
    ∃ front back, source = front ++ p.text ++ back ∧ offset = utf8Size front ∧ p.Fits back := by
  obtain ⟨front, back, rfl, rfl⟩ := hp
  refine ⟨joinPieces front, joinPieces back, ?_, rfl, ?_⟩
  · rw [← cut_join h]
    simp
  · exact Cuts.fits_behind front (cut_eq_ok_iff.mp h)

theorem occupies (h : cut source = .ok pieces) (hp : StandsAt pieces offset p) :
    Occupies source ⟨offset, utf8Size p.text⟩ p.text := by
  obtain ⟨front, back, hsource, rfl, -⟩ := hp.exists_text h
  exact ⟨front, back, hsource, rfl⟩

end StandsAt

/-- **Every byte is in a piece.** -/
theorem exists_standsAt {i : Nat} (hi : i < utf8Size (joinPieces pieces)) :
    ∃ offset p, StandsAt pieces offset p ∧ offset ≤ i ∧ i < offset + utf8Size p.text := by
  induction pieces generalizing i with
  | nil => simp at hi
  | cons q pieces ih =>
      rw [joinPieces_cons, utf8Size_append] at hi
      by_cases hfirst : i < utf8Size q.text
      · exact ⟨0, q, ⟨[], pieces, rfl, rfl⟩, Nat.zero_le _, by omega⟩
      · obtain ⟨_, p, ⟨front, back, rfl, rfl⟩, hle, hlt⟩ := @ih (i - utf8Size q.text) (by omega)
        refine ⟨_, p, ⟨q :: front, back, rfl, rfl⟩, ?_, ?_⟩
        · rw [joinPieces_cons, utf8Size_append]
          omega
        · rw [joinPieces_cons, utf8Size_append]
          omega

end Piece

/-- A block comment is read to its end. -/
theorem nestedComment_of_leading {offset : Nat} {c : Char} {cs text rest : List Char}
    (h : leading offset c cs = .ok (.blockComment, text, rest)) : NestedComment (c :: text) := by
  obtain ⟨read, hread⟩ : ∃ read, c :: text = '/' :: '*' :: read := leading_fits h
  obtain ⟨rfl, rfl⟩ := List.cons.inj hread
  have hsplit := leading_split h
  rw [← hsplit] at h
  cases hclose : closeComment 0 [] (read ++ rest) with
  | none => simp [leading, hclose] at h
  | some closed =>
      obtain ⟨text, left⟩ := closed
      obtain ⟨rfl, rfl⟩ : text = read ∧ left = rest := by simpa [leading, hclose] using h
      obtain ⟨-, body, hbody, rfl⟩ := closeComment_eq_some_iff.mp hclose
      exact ⟨body, hbody, rfl⟩

theorem Cuts.nestedComment {offset : Nat} {cs : List Char} {p : Piece} {ps : List Piece}
    (h : Cuts offset cs (p :: ps)) (hkind : p.kind = .blockComment) : NestedComment p.text := by
  cases h with
  | @cons offset c cs text rest kind pieces hlead tail =>
      obtain rfl : kind = .blockComment := hkind
      exact nestedComment_of_leading hlead

namespace Piece.StandsAt

variable {source : List Char} {pieces : List Piece} {p : Piece} {offset : Nat}

/-- A block comment among the pieces of a text. -/
theorem nestedComment (h : cut source = .ok pieces) (hp : StandsAt pieces offset p)
    (hkind : p.kind = .blockComment) : NestedComment p.text := by
  obtain ⟨front, back, rfl, -⟩ := hp
  exact ((cut_eq_ok_iff.mp h).behind front).nestedComment hkind

end Piece.StandsAt

namespace Token

variable {pieces : List Piece} {p : Piece} {offset : Nat} {t : Token}

/-- A token is made from a piece, at its place. -/
theorem exists_standsAt_from {before : Option Char} {ps : List Piece}
    (ht : t ∈ ofPiecesFrom offset before [] ps) :
    ∃ front p back before after, ps = front ++ p :: back ∧
      t ∈ ofPiece (offset + utf8Size (joinPieces front)) before p after := by
  induction ps generalizing offset before with
  | nil => simp [ofPiecesFrom] at ht
  | cons q ps ih =>
      rw [ofPiecesFrom_cons] at ht
      rcases List.mem_append.mp ht with ht | ht
      · exact ⟨[], q, ps, before, _, rfl, ht⟩
      · obtain ⟨front, p, back, before', after, rfl, hmem⟩ := ih ht
        rw [Nat.add_assoc, ← utf8Size_append] at hmem
        exact ⟨q :: front, p, back, before', after, rfl, hmem⟩

/-- **The piece of a token.** -/
theorem exists_standsAt (ht : t ∈ ofPieces pieces) :
    ∃ offset p before after, p.StandsAt pieces offset ∧ t ∈ ofPiece offset before p after := by
  obtain ⟨front, p, back, before, after, hsplit, hmem⟩ := exists_standsAt_from ht
  rw [Nat.zero_add] at hmem
  exact ⟨_, p, before, after, ⟨front, back, hsplit, rfl⟩, hmem⟩

/-- The tokens that a piece makes between its neighbours are among all tokens. -/
theorem exists_subset_from (offset : Nat) (before : Option Char) (front : List Piece) (p : Piece)
    (back : List Piece) :
    ∃ before' after, ∀ t ∈ ofPiece (offset + utf8Size (joinPieces front)) before' p after,
      t ∈ ofPiecesFrom offset before [] (front ++ p :: back) := by
  induction front generalizing offset before with
  | nil =>
      refine ⟨before, back.head?.bind fun next => next.text.head?, ?_⟩
      intro t ht
      rw [List.nil_append, ofPiecesFrom_cons]
      exact List.mem_append_left _ ht
  | cons q front ih =>
      obtain ⟨before', after, hsubset⟩ := ih (offset + utf8Size q.text) q.text.getLast?
      refine ⟨before', after, ?_⟩
      intro t ht
      rw [List.cons_append, ofPiecesFrom_cons]
      apply List.mem_append_right
      apply hsubset
      rwa [joinPieces_cons, utf8Size_append, ← Nat.add_assoc] at ht

/-- **The tokens of a piece.** -/
theorem exists_subset (hp : p.StandsAt pieces offset) :
    ∃ before after, ∀ t ∈ ofPiece offset before p after, t ∈ ofPieces pieces := by
  obtain ⟨front, back, rfl, rfl⟩ := hp
  have hsubset := exists_subset_from 0 none front p back
  rwa [Nat.zero_add] at hsubset

/-- A token lies inside of its piece. -/
theorem within_piece {before after : Option Char} {rest : List Char} (hfits : p.Fits rest)
    (ht : t ∈ ofPiece offset before p after) :
    offset ≤ t.start ∧ t.start < t.stop ∧ t.stop ≤ offset + utf8Size p.text := by
  obtain ⟨front, text, back, htext, hstart, hstop, hspells, -⟩ := mem_ofPiece hfits ht
  have hpos : utf8Size text ≠ 0 := mt utf8Size_eq_zero_iff.mp hspells.ne_nil
  rw [htext, utf8Size_append, utf8Size_append]
  omega

/-- A piece that is neither a blank nor a comment is a token. -/
theorem exists_token_of_kind {source : List Char} (h : cut source = .ok pieces)
    (hp : p.StandsAt pieces offset)
    (hkind : p.kind ≠ .blank ∧ p.kind ≠ .lineComment ∧ p.kind ≠ .blockComment) :
    ∃ t ∈ ofPieces pieces, t.start = offset ∧ t.stop = offset + utf8Size p.text := by
  obtain ⟨before, after, hsubset⟩ := exists_subset hp
  obtain ⟨_, _, -, -, hfits⟩ := hp.exists_text h
  unfold Piece.Fits at hfits
  unfold ofPiece at hsubset
  cases heq : p.kind with
  | blank => exact absurd heq hkind.1
  | lineComment => exact absurd heq hkind.2.1
  | blockComment => exact absurd heq hkind.2.2
  | lineBreak | literal | word =>
      simp only [heq, List.mem_singleton, forall_eq] at hsubset
      exact ⟨_, hsubset, rfl, rfl⟩
  | mark =>
      simp only [heq] at hfits hsubset
      obtain ⟨c, htext, -⟩ := hfits
      simp only [htext, List.map_cons, List.map_nil, List.mem_singleton, forall_eq] at hsubset
      exact ⟨_, hsubset, rfl, by rw [htext]⟩

/-- The line break that a block comment hides. -/
theorem mem_ofPiece_blockComment_iff {before after : Option Char} (hkind : p.kind = .blockComment) :
    t ∈ ofPiece offset before p after ↔ ∃ line more, p.text = line ++ '\n' :: more ∧
      '\n' ∉ line ∧ t = ⟨.lineBreak, offset + utf8Size line, offset + utf8Size line + 1⟩ := by
  rw [ofPiece, hkind]
  dsimp only
  constructor
  · intro ht
    split at ht
    next hbreak =>
      obtain rfl := List.mem_singleton.mp ht
      have hmem : '\n' ∈ p.text := by simpa using hbreak
      obtain ⟨more, htext⟩ := exists_eq_takeWhile_append hmem
      refine ⟨_, more, htext, ?_, rfl⟩
      intro hline
      simpa using of_mem_takeWhile hline
    next => simp at ht
  · rintro ⟨line, more, htext, hline, rfl⟩
    have hfree : ∀ c ∈ line, decide (c ≠ '\n') = true := by
      intro c hc
      apply decide_eq_true
      rintro rfl
      exact hline hc
    have htake : p.text.takeWhile (· ≠ '\n') = line := by
      rw [htext, List.takeWhile_append_of_pos hfree]
      simp
    rw [if_pos (by simp [htext]), htake]
    exact List.mem_singleton_self _

end Token

namespace LineComment

variable {pieces : List Piece} {c : LineComment}

/-- The spans of the line comments are those of their pieces. -/
theorem map_range_ofPiecesFrom (offset line : Nat) (ps : List Piece) :
    (ofPiecesFrom offset line [] ps).map range = Piece.spansFrom .lineComment offset ps := by
  induction ps generalizing offset line with
  | nil => rfl
  | cons p ps ih =>
      rw [ofPiecesFrom_cons, Piece.spansFrom, List.map_append, ih]
      split <;> rfl

theorem map_range_ofPieces (pieces : List Piece) :
    (ofPieces pieces).map range = Piece.spans .lineComment pieces :=
  map_range_ofPiecesFrom 0 1 pieces

/-- **Line comments come one behind another.** -/
theorem pairwise_range (pieces : List Piece) :
    (ofPieces pieces).Pairwise fun a b => a.range.stop ≤ b.start := by
  have hspans := Piece.pairwise_spansFrom .lineComment 0 pieces
  rw [← map_range_ofPiecesFrom 0 1] at hspans
  exact List.pairwise_map.mp hspans

/-- The piece of a line comment. -/
theorem exists_standsAt (hc : c ∈ ofPieces pieces) :
    ∃ p : Piece, p.StandsAt pieces c.start ∧ p.kind = .lineComment ∧ c.text = p.text := by
  obtain ⟨front, p, back, hsplit, hkind, hstart, -, htext⟩ := mem_ofPiecesFrom hc
  rw [Nat.zero_add] at hstart
  exact ⟨p, ⟨front, back, hsplit, hstart⟩, hkind, htext⟩

end LineComment

/-- How tokens, line comments and block comments share a text.  Of the block comments the
spans are given. -/
structure Partition (source : String) (tokens : List Token) (comments : List LineComment)
    (blocks : List ByteRange) : Prop where
  /-- Tokens come one behind another. -/
  tokens_apart : tokens.Pairwise fun a b => a.stop ≤ b.start
  /-- No token is empty, and each begins and ends where a character does. -/
  tokens_stand : ∀ t ∈ tokens, t.start < t.stop ∧ (Text.ofString source).IsBoundary t.start ∧
    (Text.ofString source).IsBoundary t.stop
  /-- Line comments come one behind another. -/
  comments_apart : comments.Pairwise fun a b => a.range.stop ≤ b.start
  /-- A line comment begins with two slashes and takes in all that is left of its line. -/
  comments_extend : ∀ c ∈ comments, ∃ front back, source.toList = front ++ c.text ++ back ∧
    c.start = utf8Size front ∧ ['/', '/'] <+: c.text ∧ '\n' ∉ c.text ∧ ∀ d ∈ back.head?, d = '\n'
  /-- A token and a line comment are apart. -/
  tokens_beside_comments : ∀ t ∈ tokens, ∀ c ∈ comments, t.stop ≤ c.start ∨ c.range.stop ≤ t.start
  /-- Block comments come one behind another. -/
  blocks_apart : blocks.Pairwise fun a b => a.stop ≤ b.location
  /-- A block comment and a line comment are apart. -/
  blocks_beside_comments : ∀ r ∈ blocks, ∀ c ∈ comments, r.stop ≤ c.start ∨ c.range.stop ≤ r.location
  /-- Block comments are properly nested.  The one token that shares bytes with a block comment
  is the line break at the first `\n` in it, if there is one. -/
  blocks_nested : ∀ r ∈ blocks, ∃ text, Occupies source.toList r text ∧ NestedComment text ∧
    ∀ t, (t ∈ tokens ∧ r.location < t.stop ∧ t.start < r.stop) ↔
      ∃ line more, text = line ++ '\n' :: more ∧ '\n' ∉ line ∧
        t = ⟨.lineBreak, r.location + utf8Size line, r.location + utf8Size line + 1⟩
  /-- A byte that is in none of them is a blank. -/
  covered : ∀ i < source.utf8ByteSize, (∃ t ∈ tokens, t.start ≤ i ∧ i < t.stop) ∨
    (∃ c ∈ comments, c.start ≤ i ∧ i < c.range.stop) ∨
    (∃ r ∈ blocks, r.location ≤ i ∧ i < r.stop) ∨
    ∃ b ∈ [' ', '\t', '\r'], (utf8Bytes source.toList)[i]? = some b.toUInt8

section

variable {source : List Char} {pieces : List Piece}

/-- A token and a comment are apart, unless the comment is the piece of the token. -/
theorem Token.apart_of_piece {t : Token} {p : Piece} {offset : Nat}
    (h : cut source = .ok pieces) (ht : t ∈ ofPieces pieces) (hp : p.StandsAt pieces offset) :
    t.stop ≤ offset ∨ offset + utf8Size p.text ≤ t.start ∨
      ∃ before after, t ∈ ofPiece offset before p after := by
  obtain ⟨place, q, before, after, hq, hmem⟩ := exists_standsAt ht
  obtain ⟨_, _, -, -, hfits⟩ := hq.exists_text h
  obtain ⟨hstart, -, hstop⟩ := within_piece hfits hmem
  rcases hq.cases hp with ⟨rfl, rfl⟩ | hbefore | hbehind
  · exact .inr (.inr ⟨before, after, hmem⟩)
  · exact .inl (Nat.le_trans hstop hbefore)
  · exact .inr (.inl (Nat.le_trans hbehind hstart))

/-- A token and a line comment are apart. -/
theorem Token.beside_comment {t : Token} {c : LineComment} (h : cut source = .ok pieces)
    (ht : t ∈ ofPieces pieces) (hc : c ∈ LineComment.ofPieces pieces) :
    t.stop ≤ c.start ∨ c.range.stop ≤ t.start := by
  obtain ⟨p, hp, hkind, htext⟩ := LineComment.exists_standsAt hc
  rw [LineComment.range, ByteRange.stop, htext]
  rcases apart_of_piece h ht hp with hbefore | hbehind | ⟨_, _, hmem⟩
  · exact .inl hbefore
  · exact .inr hbehind
  · rw [ofPiece, hkind] at hmem
    simp at hmem

/-- **What shares bytes with a block comment.** -/
theorem Token.mem_blockComment_iff {t : Token} {p : Piece} {offset : Nat}
    (h : cut source = .ok pieces) (hp : p.StandsAt pieces offset) (hkind : p.kind = .blockComment) :
    (t ∈ ofPieces pieces ∧ offset < t.stop ∧ t.start < offset + utf8Size p.text) ↔
      ∃ line more, p.text = line ++ '\n' :: more ∧ '\n' ∉ line ∧
        t = ⟨.lineBreak, offset + utf8Size line, offset + utf8Size line + 1⟩ := by
  constructor
  · rintro ⟨ht, hstop, hstart⟩
    rcases apart_of_piece h ht hp with hbefore | hbehind | ⟨_, _, hmem⟩
    · omega
    · omega
    · exact (mem_ofPiece_blockComment_iff hkind).mp hmem
  · intro hbreak
    obtain ⟨before, after, hsubset⟩ := exists_subset hp
    have hmem : t ∈ ofPiece offset before p after :=
      (mem_ofPiece_blockComment_iff hkind).mpr hbreak
    obtain ⟨_, _, -, -, hfits⟩ := hp.exists_text h
    obtain ⟨hstart, hpos, hstop⟩ := within_piece hfits hmem
    exact ⟨hsubset t hmem, by omega, by omega⟩

/-- **Every byte** is in a token, in a comment or in a blank. -/
theorem covered_of_cut (h : cut source = .ok pieces) {i : Nat} (hi : i < utf8Size source) :
    (∃ t ∈ Token.ofPieces pieces, t.start ≤ i ∧ i < t.stop) ∨
      (∃ c ∈ LineComment.ofPieces pieces, c.start ≤ i ∧ i < c.range.stop) ∨
      (∃ r ∈ Piece.spans .blockComment pieces, r.location ≤ i ∧ i < r.stop) ∨
      ∃ b ∈ [' ', '\t', '\r'], (utf8Bytes source)[i]? = some b.toUInt8 := by
  rw [← cut_join h] at hi
  obtain ⟨offset, p, hp, hle, hlt⟩ := Piece.exists_standsAt hi
  cases hkind : p.kind with
  | lineBreak | literal | word | mark =>
      obtain ⟨t, ht, hstart, hstop⟩ := Token.exists_token_of_kind h hp (by simp [hkind])
      exact .inl ⟨t, ht, by omega, by omega⟩
  | lineComment =>
      have hspan : ⟨offset, utf8Size p.text⟩ ∈ Piece.spans .lineComment pieces :=
        Piece.mem_spans_iff.mpr ⟨p, hp, hkind, rfl⟩
      rw [← LineComment.map_range_ofPieces] at hspan
      obtain ⟨c, hc, hrange⟩ := List.mem_map.mp hspan
      have hstart : c.start = offset := congrArg ByteRange.location hrange
      exact .inr (.inl ⟨c, hc, by omega, by rw [hrange]; exact hlt⟩)
  | blockComment =>
      have hspan : ⟨offset, utf8Size p.text⟩ ∈ Piece.spans .blockComment pieces :=
        Piece.mem_spans_iff.mpr ⟨p, hp, hkind, rfl⟩
      exact .inr (.inr (.inl ⟨_, hspan, hle, hlt⟩))
  | blank =>
      obtain ⟨front, back, hsource, rfl, hfits⟩ := hp.exists_text h
      simp only [Piece.Fits, hkind] at hfits
      obtain ⟨b, hb, htext⟩ := hfits
      have hascii : b.toNat < 0x80 := by
        simp only [List.mem_cons, List.not_mem_nil, or_false] at hb
        rcases hb with rfl | rfl | rfl <;> decide
      obtain rfl : i = utf8Size front := by
        rw [htext, utf8Size_cons, utf8Size_of_lt hascii, utf8Size_nil] at hlt
        omega
      refine .inr (.inr (.inr ⟨b, hb, ?_⟩))
      rw [hsource, htext, List.append_assoc, List.singleton_append]
      exact getElem?_utf8Bytes_append hascii front back

end

/-- **Tokens and comments share a text.**  A text that is cut has its tokens, its line comments
and its block comments in order and apart from each other, but for the line break that a
block comment hides; and the rest of it is blank. -/
theorem tokens_partition {source : String} {pieces : List Piece}
    (h : cut source.toList = .ok pieces) :
    Partition source (Token.ofPieces pieces) (LineComment.ofPieces pieces)
      (Piece.spans .blockComment pieces) where
  tokens_apart := Token.pairwise_ofPieces h
  tokens_stand := by
    intro t ht
    obtain ⟨front, text, back, hsource, hstands⟩ := Token.standsIn_of_mem h ht
    refine ⟨hstands.start_lt_stop, Text.isBoundary_iff.mpr ?_, Text.isBoundary_iff.mpr ?_⟩
    · exact ⟨front, text ++ back, hsource.trans (List.append_assoc _ _ _), hstands.start_eq⟩
    · exact ⟨front ++ text, back, hsource, by rw [hstands.stop_eq, utf8Size_append]⟩
  comments_apart := LineComment.pairwise_range pieces
  comments_extend := by
    intro c hc
    obtain ⟨p, hp, hkind, htext⟩ := LineComment.exists_standsAt hc
    obtain ⟨front, back, hsource, hstart, hfits⟩ := hp.exists_text h
    simp only [Piece.Fits, hkind, ← htext] at hfits
    obtain ⟨⟨more, hslashes⟩, hline, hends⟩ := hfits
    exact ⟨front, back, htext ▸ hsource, hstart, ⟨more, hslashes.symm⟩, hline, hends⟩
  tokens_beside_comments := fun _ ht _ hc => Token.beside_comment h ht hc
  blocks_apart := Piece.pairwise_spansFrom .blockComment 0 pieces
  blocks_beside_comments := by
    intro r hr c hc
    obtain ⟨p, hp, hblock, hlength⟩ := Piece.mem_spans_iff.mp hr
    obtain ⟨q, hq, hcomment, htext⟩ := LineComment.exists_standsAt hc
    rw [LineComment.range, ByteRange.stop, ByteRange.stop, htext, hlength]
    rcases hp.cases hq with ⟨-, rfl⟩ | hbefore | hbehind
    · simp [hblock] at hcomment
    · exact .inl hbefore
    · exact .inr hbehind
  blocks_nested := by
    intro r hr
    obtain ⟨p, hp, hkind, hlength⟩ := Piece.mem_spans_iff.mp hr
    refine ⟨p.text, ?_, hp.nestedComment h hkind, ?_⟩
    · have hoccupies := hp.occupies h
      rwa [← hlength] at hoccupies
    · intro t
      rw [ByteRange.stop, hlength]
      exact Token.mem_blockComment_iff h hp hkind
  covered := by
    intro i hi
    rw [utf8ByteSize_eq_utf8Size] at hi
    exact covered_of_cut h hi

/-- A block comment that holds another one and a line break, and a line comment that holds a
letter of two bytes. -/
theorem tokens_partition_block :
    cut "a/*\n/**/*/\t//é".toList = .ok [⟨.word, ['a']⟩, ⟨.blockComment, "/*\n/**/*/".toList⟩,
      ⟨.blank, ['\t']⟩, ⟨.lineComment, "//é".toList⟩] ∧
    Partition "a/*\n/**/*/\t//é" [⟨.word "a", 0, 1⟩, ⟨.lineBreak, 3, 4⟩]
      [⟨11, 2, "//é".toList⟩] [⟨1, 9⟩] := by
  have hcut : cut "a/*\n/**/*/\t//é".toList = .ok [⟨.word, ['a']⟩,
      ⟨.blockComment, "/*\n/**/*/".toList⟩, ⟨.blank, ['\t']⟩, ⟨.lineComment, "//é".toList⟩] := by
    with_unfolding_all rfl
  have htokens : Token.ofPieces [⟨.word, ['a']⟩, ⟨.blockComment, "/*\n/**/*/".toList⟩,
      ⟨.blank, ['\t']⟩, ⟨.lineComment, "//é".toList⟩] = [⟨.word "a", 0, 1⟩, ⟨.lineBreak, 3, 4⟩] := by
    with_unfolding_all rfl
  have hpartition := tokens_partition hcut
  rw [htokens] at hpartition
  exact ⟨hcut, hpartition⟩

end DeclLint
