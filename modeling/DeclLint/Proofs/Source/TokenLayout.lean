import DeclLint.Proofs.Source.Cutting
import DeclLint.Text.Line

/-!
# Where tokens stand

Every token has its characters in the text, at the span of bytes that it says,
and a word is never followed by another word character.  Tokens come in the
order of the text and do not overlap.

* `Token.standsIn_of_mem` — a token stands in the text that was cut;
* `Token.pairwise_ofPieces` — tokens come one behind another;
* `Token.piece_of_word` — a word token is a whole piece;
* `Token.marksIn_of_mem` — a mark is told by the characters on both sides of it;
* `LineComment.stands_of_mem` — so do line comments stand in the text, on their lines;
* `LineComment.pairwise_ofPieces` — no two of them on one line.
-/

namespace DeclLint

/-- The characters that a lexeme may be written with. -/
def Lexeme.Spells (l : Lexeme) (text : List Char) : Prop :=
  match l with
  | .word w => text = w.toList ∧ text ≠ [] ∧ ∀ c ∈ text, isWordChar c = true
  | .literal => ∃ c cs, text = c :: cs ∧ (c = '"' ∨ c = '#')
  | .lineBreak => text = ['\n']
  | .assign => text = ['=']
  | .query => text = ['?']
  | .mark c => text = [c]

/-- A text that holds a character is split at the first one. -/
theorem exists_eq_takeWhile_append {c : Char} {cs : List Char} (h : c ∈ cs) :
    ∃ back, cs = cs.takeWhile (· ≠ c) ++ c :: back := by
  induction cs with
  | nil => simp at h
  | cons d cs ih =>
      by_cases hd : d = c
      · exact ⟨cs, by simp [hd]⟩
      · obtain ⟨back, hback⟩ := ih (by simpa [Ne.symm hd] using h)
        refine ⟨back, ?_⟩
        rw [List.takeWhile_cons_of_pos (by simpa using hd), List.cons_append, ← hback]

theorem Lexeme.Spells.ne_nil {l : Lexeme} {text : List Char} (h : l.Spells text) :
    text ≠ [] := by
  unfold Lexeme.Spells at h
  split at h <;> grind

namespace Token

/-- A token is written as `text`, behind `front` and before `back`. -/
structure Stands (t : Token) (front text back : List Char) : Prop where
  start_eq : t.start = utf8Size front
  stop_eq : t.stop = utf8Size front + utf8Size text
  spells : t.lexeme.Spells text
  ends : t.isWord = true → ∀ c ∈ back.head?, isWordChar c = false

/-- A token is written somewhere in a text. -/
def StandsIn (source : List Char) (t : Token) : Prop :=
  ∃ front text back, source = front ++ text ++ back ∧ t.Stands front text back

/-- No token is empty. -/
theorem Stands.start_lt_stop {t : Token} {front text back : List Char}
    (h : t.Stands front text back) : t.start < t.stop := by
  have hsize : utf8Size text ≠ 0 := by
    intro hzero
    apply h.spells.ne_nil
    exact utf8Size_eq_zero_iff.mp hzero
  rw [h.start_eq, h.stop_eq]
  omega

theorem StandsIn.start_lt_stop {source : List Char} {t : Token} (h : t.StandsIn source) :
    t.start < t.stop := by
  obtain ⟨_, _, _, -, hstands⟩ := h
  exact hstands.start_lt_stop

/-- What is behind a token may be preceded by more text. -/
theorem StandsIn.prepend {source : List Char} {t : Token} {front text back more rest : List Char}
    (hsource : source = more ++ (front ++ text ++ back) ++ rest)
    (hstart : t.start = utf8Size more + utf8Size front)
    (hstop : t.stop = t.start + utf8Size text) (hspells : t.lexeme.Spells text)
    (hends : t.isWord = true → ∀ c ∈ (back ++ rest).head?, isWordChar c = false) :
    t.StandsIn source := by
  refine ⟨more ++ front, text, back ++ rest, ?_, ?_⟩
  · simp [hsource, List.append_assoc]
  · exact ⟨by simp [hstart], by simp [hstop, hstart], hspells, hends⟩

/-- The lexeme of a mark is written with its character. -/
theorem spells_lexemeOfMark (before : Option Char) (c : Char) (after : Option Char) :
    (lexemeOfMark before c after).Spells [c] := by
  unfold lexemeOfMark
  split
  next hassign => rw [hassign.1]; rfl
  next =>
    split
    next hquery => rw [hquery.1]; rfl
    next => rfl

theorem isWord_lexemeOfMark (before : Option Char) (c : Char) (after : Option Char)
    (start stop : Nat) :
    (Token.mk (lexemeOfMark before c after) start stop).isWord = false := by
  unfold lexemeOfMark
  split
  · rfl
  · split <;> rfl

/-- **The token of a piece.**  It is written inside the piece; a word is the
whole piece. -/
theorem mem_ofPiece {offset : Nat} {before after : Option Char} {p : Piece}
    {rest : List Char} {t : Token} (hfits : p.Fits rest)
    (h : t ∈ ofPiece offset before p after) :
    ∃ front text back, p.text = front ++ text ++ back ∧
      t.start = offset + utf8Size front ∧ t.stop = t.start + utf8Size text ∧
      t.lexeme.Spells text ∧
      (t.isWord = true → p.kind = .word ∧ front = [] ∧ back = [] ∧
        t.lexeme = .word (String.ofList p.text)) := by
  unfold Piece.Fits at hfits
  unfold ofPiece at h
  cases hkind : p.kind with
  | blank => simp [hkind] at h
  | lineComment => simp [hkind] at h
  | lineBreak =>
      simp only [hkind, List.mem_singleton] at h hfits
      subst h
      exact ⟨[], p.text, [], by simp, by simp, rfl, hfits, by simp [isWord, word?]⟩
  | blockComment =>
      simp only [hkind] at h
      split at h
      next hbreak =>
        obtain rfl := List.mem_singleton.mp h
        have hmem : '\n' ∈ p.text := by simpa using hbreak
        obtain ⟨back, htext⟩ := exists_eq_takeWhile_append hmem
        refine ⟨p.text.takeWhile (· ≠ '\n'), ['\n'], back, ?_, rfl, ?_, rfl, by
          simp [isWord, word?]⟩
        · rw [List.append_assoc, List.singleton_append]
          exact htext
        · have hsize : '\n'.utf8Size = 1 := by decide
          simp [hsize]
      next => simp at h
  | literal =>
      simp only [hkind, List.mem_singleton] at h hfits
      subst h
      exact ⟨[], p.text, [], by simp, by simp, rfl, hfits, by simp [isWord, word?]⟩
  | word =>
      simp only [hkind, List.mem_singleton] at h hfits
      subst h
      refine ⟨[], p.text, [], by simp, by simp, rfl, ?_, fun _ => ⟨rfl, rfl, rfl, rfl⟩⟩
      exact ⟨by simp, hfits.1, hfits.2.1⟩
  | mark =>
      simp only [hkind] at h hfits
      obtain ⟨c, htext, -⟩ := hfits
      simp only [htext, List.map_cons, List.map_nil, List.mem_singleton] at h
      subst h
      refine ⟨[], [c], [], by simp [htext], by simp, rfl, ?_, ?_⟩
      · exact spells_lexemeOfMark before c after
      · intro hword
        simp [isWord_lexemeOfMark] at hword

/-- A piece bears one token at most. -/
theorem length_ofPiece_le {offset : Nat} {before after : Option Char} {p : Piece}
    {rest : List Char} (hfits : p.Fits rest) :
    (ofPiece offset before p after).length ≤ 1 := by
  unfold ofPiece
  cases hkind : p.kind with
  | mark =>
      simp only [Piece.Fits, hkind] at hfits
      obtain ⟨c, htext, -⟩ := hfits
      simp [htext]
  | blockComment =>
      dsimp only
      split <;> simp
  | _ => simp

/-- Only a mark is told by the characters around it. -/
theorem ofPiece_of_ne_mark {p : Piece} (h : p.kind ≠ .mark) (offset : Nat)
    (before before' after after' : Option Char) :
    ofPiece offset before' p after' = ofPiece offset before p after := by
  unfold ofPiece
  cases hkind : p.kind with
  | mark => exact absurd hkind h
  | _ => rfl

/-- The tokens read before stand in front of those still to be read. -/
theorem ofPiecesFrom_eq (offset : Nat) (before : Option Char) (done : List Token)
    (ps : List Piece) :
    ofPiecesFrom offset before done ps = done.reverse ++ ofPiecesFrom offset before [] ps := by
  induction ps generalizing offset before done with
  | nil => simp [ofPiecesFrom]
  | cons p ps ih =>
      simp only [ofPiecesFrom]
      rw [ih, ih _ _ (_ ++ [])]
      simp

/-- The tokens of the first piece, and those of the others read by themselves. -/
theorem ofPiecesFrom_cons (offset : Nat) (before : Option Char) (p : Piece)
    (ps : List Piece) :
    ofPiecesFrom offset before [] (p :: ps) =
      ofPiece offset before p (ps.head?.bind fun next => next.text.head?) ++
        ofPiecesFrom (offset + utf8Size p.text) p.text.getLast? [] ps := by
  simp only [ofPiecesFrom]
  rw [ofPiecesFrom_eq]
  simp

/-- The tokens of pieces from some place on, with what is before that place. -/
theorem standsIn_of_mem_from {front cs : List Char} {pieces : List Piece}
    {before : Option Char} {t : Token} (h : Cuts (utf8Size front) cs pieces)
    (ht : t ∈ ofPiecesFrom (utf8Size front) before [] pieces) :
    t.StandsIn (front ++ cs) := by
  induction pieces generalizing front cs before with
  | nil => simp [ofPiecesFrom] at ht
  | cons p ps ih =>
      have hfits : p.Fits (joinPieces ps) := h.fits
      have hjoin : p.text ++ joinPieces ps = cs := h.join
      rw [ofPiecesFrom_cons] at ht
      rcases List.mem_append.mp ht with ht | ht
      · obtain ⟨before', text, back, htext, hstart, hstop, hspells, hword⟩ :=
          mem_ofPiece hfits ht
        have hsource : front ++ cs = front ++ (before' ++ text ++ back) ++ joinPieces ps := by
          rw [← hjoin, htext, List.append_assoc front]
        apply StandsIn.prepend hsource hstart hstop hspells
        intro hisWord
        obtain ⟨hkind, -, rfl, -⟩ := hword hisWord
        simp only [Piece.Fits, hkind] at hfits
        exact hfits.2.2
      · have hdrop := h.rest
        rw [← utf8Size_append] at hdrop
        rw [← utf8Size_append] at ht
        have hstands := ih hdrop ht
        rwa [List.append_assoc, hjoin] at hstands

/-- **Tokens stand in the text.** -/
theorem standsIn_of_mem {source : List Char} {pieces : List Piece} {t : Token}
    (h : cut source = .ok pieces) (ht : t ∈ ofPieces pieces) : t.StandsIn source := by
  have hcuts := cut_eq_ok_iff.mp h
  have hstands := @standsIn_of_mem_from [] source pieces none t hcuts ht
  simpa using hstands

/-- Tokens begin where their pieces do, or behind that. -/
theorem start_ge_of_mem {offset : Nat} {cs : List Char} {pieces : List Piece}
    {before : Option Char} {t : Token} (h : Cuts offset cs pieces)
    (ht : t ∈ ofPiecesFrom offset before [] pieces) : offset ≤ t.start := by
  induction pieces generalizing offset cs before with
  | nil => simp [ofPiecesFrom] at ht
  | cons p ps ih =>
      have hfits : p.Fits (joinPieces ps) := h.fits
      rw [ofPiecesFrom_cons] at ht
      rcases List.mem_append.mp ht with ht | ht
      · obtain ⟨front, text, back, -, hstart, -⟩ := mem_ofPiece hfits ht
        omega
      · have hdrop := h.rest
        have hle := ih hdrop ht
        omega

/-- Tokens stand one behind another. -/
theorem pairwise_ofPiecesFrom {offset : Nat} {cs : List Char} {pieces : List Piece}
    {before : Option Char} (h : Cuts offset cs pieces) :
    (ofPiecesFrom offset before [] pieces).Pairwise fun a b => a.stop ≤ b.start := by
  induction pieces generalizing offset cs before with
  | nil => simp [ofPiecesFrom]
  | cons p ps ih =>
      have hfits : p.Fits (joinPieces ps) := h.fits
      have hdrop := h.rest
      rw [ofPiecesFrom_cons]
      refine List.pairwise_append.mpr ⟨?_, ih hdrop, ?_⟩
      · have hlength : (ofPiece offset before p
            (ps.head?.bind fun next => next.text.head?)).length ≤ 1 := length_ofPiece_le hfits
        match ofPiece offset before p (ps.head?.bind fun next => next.text.head?),
          hlength with
        | [], _ => exact .nil
        | [t], _ => exact List.pairwise_singleton _ t
      · intro a ha b hb
        obtain ⟨front, text, back, htext, hstart, hstop, -⟩ := mem_ofPiece hfits ha
        have hle := start_ge_of_mem hdrop hb
        rw [htext, utf8Size_append, utf8Size_append] at hle
        omega

/-- **Tokens come one behind another.** -/
theorem pairwise_ofPieces {source : List Char} {pieces : List Piece}
    (h : cut source = .ok pieces) :
    (ofPieces pieces).Pairwise fun a b => a.stop ≤ b.start :=
  pairwise_ofPiecesFrom (cut_eq_ok_iff.mp h)

/-- A word token is a whole piece. -/
theorem piece_of_word_from {offset : Nat} {cs : List Char} {pieces : List Piece}
    {before : Option Char} {t : Token} {word : String} (h : Cuts offset cs pieces)
    (ht : t ∈ ofPiecesFrom offset before [] pieces) (hword : t.lexeme = .word word) :
    ∃ front back, pieces = front ++ ⟨.word, word.toList⟩ :: back ∧
      t.start = offset + utf8Size (joinPieces front) := by
  induction pieces generalizing offset cs before with
  | nil => simp [ofPiecesFrom] at ht
  | cons p ps ih =>
      have hfits : p.Fits (joinPieces ps) := h.fits
      rw [ofPiecesFrom_cons] at ht
      rcases List.mem_append.mp ht with ht | ht
      · obtain ⟨front, text, back, htext, hstart, hstop, -, hwhole⟩ := mem_ofPiece hfits ht
        obtain ⟨hkind, rfl, rfl, hlexeme⟩ := hwhole (by simp [isWord, word?, hword])
        have hp : p = ⟨.word, word.toList⟩ := by
          have heq : String.ofList p.text = word := by
            simpa [hlexeme] using hword
          cases p with
          | mk kind ptext =>
              simp only at hkind heq
              rw [hkind, ← heq, String.toList_ofList]
        exact ⟨[], ps, by simp [hp], by simpa using hstart⟩
      · have hdrop := h.rest
        obtain ⟨front, back, rfl, hstart⟩ := ih hdrop ht
        exact ⟨p :: front, back, rfl, by simp [hstart, Nat.add_assoc]⟩

/-- **A word token is a whole piece.**  The pieces before it have as many bytes
as come before the token. -/
theorem piece_of_word {source : List Char} {pieces : List Piece} {t : Token}
    {word : String} (h : cut source = .ok pieces) (ht : t ∈ ofPieces pieces)
    (hword : t.lexeme = .word word) :
    ∃ front back, pieces = front ++ ⟨.word, word.toList⟩ :: back ∧
      t.start = utf8Size (joinPieces front) := by
  have hpiece := piece_of_word_from (cut_eq_ok_iff.mp h) ht hword
  simpa using hpiece

/-- A mark is its own character, be it read as an operator or not. -/
theorem mark?_lexemeOfMark (before : Option Char) (c : Char) (after : Option Char)
    (start stop : Nat) : (Token.mk (lexemeOfMark before c after) start stop).mark? = some c := by
  unfold lexemeOfMark
  split
  next hassign => rw [hassign.1]; rfl
  next =>
    split
    next hquery => rw [hquery.1]; rfl
    next => rfl

/-- A token is a mark between two characters, if there are any. -/
structure MarksIn (source : List Char) (t : Token) (c : Char) (front back : List Char) : Prop where
  source_eq : source = front ++ c :: back
  start_eq : t.start = utf8Size front
  outside : isWordChar c = false
  lexeme_eq : t.lexeme = lexemeOfMark front.getLast? c back.head?

/-- The mark of a piece. -/
theorem mark_of_mem_ofPiece {offset : Nat} {before after : Option Char} {p : Piece}
    {rest : List Char} {t : Token} {c : Char} (hfits : p.Fits rest)
    (h : t ∈ ofPiece offset before p after) (hmark : t.mark? = some c) :
    p.text = [c] ∧ isWordChar c = false ∧ t.start = offset ∧
      t.lexeme = lexemeOfMark before c after := by
  unfold Piece.Fits at hfits
  unfold ofPiece at h
  cases hkind : p.kind with
  | mark =>
      simp only [hkind] at h hfits
      obtain ⟨d, htext, hd⟩ := hfits
      simp only [htext, List.map_cons, List.map_nil, List.mem_singleton] at h
      subst h
      rw [mark?_lexemeOfMark] at hmark
      obtain rfl := Option.some.inj hmark
      exact ⟨htext, hd, rfl, rfl⟩
  | blockComment =>
      simp only [hkind] at h
      split at h
      · obtain rfl := List.mem_singleton.mp h
        cases hmark
      · cases h
  | blank | lineComment =>
      simp [hkind] at h
  | lineBreak | literal | word =>
      simp only [hkind, List.mem_singleton] at h
      subst h
      cases hmark

/-- A mark stands between the characters that its lexeme was told by. -/
theorem marksIn_of_mem_from {front cs : List Char} {pieces : List Piece} {t : Token} {c : Char}
    (h : Cuts (utf8Size front) cs pieces)
    (ht : t ∈ ofPiecesFrom (utf8Size front) front.getLast? [] pieces)
    (hmark : t.mark? = some c) :
    ∃ before after, t.MarksIn (front ++ cs) c before after := by
  induction pieces generalizing front cs with
  | nil => simp [ofPiecesFrom] at ht
  | cons p ps ih =>
      have hfits : p.Fits (joinPieces ps) := h.fits
      have hjoin : p.text ++ joinPieces ps = cs := h.join
      have hdrop := h.rest
      rw [ofPiecesFrom_cons] at ht
      rcases List.mem_append.mp ht with ht | ht
      · obtain ⟨htext, houtside, hstart, hlexeme⟩ := mark_of_mem_ofPiece hfits ht hmark
        have hafter : (ps.head?.bind fun next => next.text.head?) = (joinPieces ps).head? := by
          cases ps with
          | nil => rfl
          | cons q qs =>
              obtain ⟨d, ds, hq⟩ := List.exists_cons_of_ne_nil hdrop.fits.text_ne_nil
              rw [joinPieces_cons, List.head?_cons, Option.bind_some, hq]
              rfl
        rw [hafter] at hlexeme
        rw [htext] at hjoin
        exact ⟨front, joinPieces ps, by rw [← hjoin]; rfl, hstart, houtside, hlexeme⟩
      · have hlast : p.text.getLast? = (front ++ p.text).getLast? := by
          obtain ⟨c, hc⟩ :=
            Option.isSome_iff_exists.mp (List.getLast?_isSome.mpr hfits.text_ne_nil)
          rw [List.getLast?_append, hc]
          rfl
        rw [← utf8Size_append] at hdrop ht
        rw [hlast] at ht
        have hmarks := ih hdrop ht
        rwa [List.append_assoc, hjoin] at hmarks

/-- **Marks stand between their neighbours.** -/
theorem marksIn_of_mem {source : List Char} {pieces : List Piece} {t : Token} {c : Char}
    (h : cut source = .ok pieces) (ht : t ∈ ofPieces pieces) (hmark : t.mark? = some c) :
    ∃ before after, t.MarksIn source c before after :=
  @marksIn_of_mem_from [] source pieces t c (cut_eq_ok_iff.mp h) ht hmark

end Token

namespace LineComment

/-- The comments read before stand in front of those still to be read. -/
theorem ofPiecesFrom_eq (offset line : Nat) (done : List LineComment) (ps : List Piece) :
    ofPiecesFrom offset line done ps = done.reverse ++ ofPiecesFrom offset line [] ps := by
  induction ps generalizing offset line done with
  | nil => simp [ofPiecesFrom]
  | cons p ps ih =>
      simp only [ofPiecesFrom]
      rw [ih, ih _ _ (if p.kind = .lineComment then _ else [])]
      split <;> simp

theorem ofPiecesFrom_cons (offset line : Nat) (p : Piece) (ps : List Piece) :
    ofPiecesFrom offset line [] (p :: ps) =
      (if p.kind = .lineComment then [⟨offset, line, p.text⟩] else []) ++
        ofPiecesFrom (offset + utf8Size p.text) (line + lineBreaks p.text) [] ps := by
  rw [ofPiecesFrom, ofPiecesFrom_eq]
  split <;> rfl

/-- A line comment is a piece, and begins behind the pieces before it. -/
theorem mem_ofPiecesFrom {offset line : Nat} {ps : List Piece} {c : LineComment}
    (h : c ∈ ofPiecesFrom offset line [] ps) :
    ∃ front p back, ps = front ++ p :: back ∧ p.kind = .lineComment ∧
      c.start = offset + utf8Size (joinPieces front) ∧
      c.line = line + lineBreaks (joinPieces front) ∧ c.text = p.text := by
  induction ps generalizing offset line with
  | nil => simp [ofPiecesFrom] at h
  | cons p ps ih =>
      rw [ofPiecesFrom_cons] at h
      rcases List.mem_append.mp h with h | h
      · split at h
        next hkind =>
          obtain rfl := List.mem_singleton.mp h
          exact ⟨[], p, ps, rfl, hkind, by simp, by simp [lineBreaks], rfl⟩
        next => simp at h
      · obtain ⟨front, q, back, rfl, hkind, hstart, hline, htext⟩ := ih h
        refine ⟨p :: front, q, back, rfl, hkind, ?_, ?_, htext⟩
        · simp [hstart, Nat.add_assoc]
        · rw [hline, joinPieces_cons, lineBreaks_append, Nat.add_assoc]

/-- **Line comments stand in the text.**  The line of each counts the line breaks before
it. -/
theorem stands_of_mem {source : List Char} {pieces : List Piece} {c : LineComment}
    (h : cut source = .ok pieces) (hc : c ∈ ofPieces pieces) :
    ∃ front back, source = front ++ c.text ++ back ∧ c.start = utf8Size front ∧
      c.line = 1 + lineBreaks front := by
  obtain ⟨front, p, back, rfl, -, hstart, hline, htext⟩ := mem_ofPiecesFrom hc
  refine ⟨joinPieces front, joinPieces back, ?_, by simpa using hstart, hline⟩
  rw [← cut_join h, htext]
  simp

theorem occupies_of_mem {source : List Char} {pieces : List Piece} {c : LineComment}
    (h : cut source = .ok pieces) (hc : c ∈ ofPieces pieces) :
    Occupies source c.range c.text := by
  obtain ⟨front, back, hsource, hstart, -⟩ := stands_of_mem h hc
  exact ⟨front, back, hsource, by rw [range, hstart]⟩

/-- What stands between two line comments has a line break. -/
theorem lineBreaks_pos {p q : Piece} {between back : List Piece} {offset : Nat}
    {cs : List Char} (h : Cuts offset cs (p :: (between ++ q :: back)))
    (hp : p.kind = .lineComment) (hq : q.kind = .lineComment) :
    0 < lineBreaks (joinPieces between) := by
  have hends := h.fits
  have hbegins : q.Fits (joinPieces back) := Cuts.fits_behind (p :: between) h
  simp only [Piece.Fits, hp] at hends
  simp only [Piece.Fits, hq] at hbegins
  obtain ⟨-, -, hends⟩ := hends
  obtain ⟨⟨tail, htext⟩, -⟩ := hbegins
  rw [joinPieces_append, joinPieces_cons, htext] at hends
  cases hbetween : joinPieces between with
  | nil =>
      rw [hbetween] at hends
      exact absurd (hends '/' rfl) (by decide)
  | cons c more =>
      rw [hbetween] at hends
      obtain rfl : c = '\n' := hends c rfl
      exact List.count_pos_iff.mpr List.mem_cons_self

/-- Line comments are on lines of their own: each ends at a line break, or with the text. -/
theorem pairwise_ofPiecesFrom {start offset line : Nat} {cs : List Char} {ps : List Piece}
    (h : Cuts start cs ps) :
    (ofPiecesFrom offset line [] ps).Pairwise fun a b => a.line < b.line := by
  induction ps generalizing start offset line cs with
  | nil => simp [ofPiecesFrom]
  | cons p ps ih =>
      rw [ofPiecesFrom_cons]
      refine List.pairwise_append.mpr ⟨?_, ih h.rest, ?_⟩
      · split
        · exact List.pairwise_singleton _ _
        · exact .nil
      · intro a ha b hb
        obtain ⟨between, q, back, rfl, hq, -, hline, -⟩ := mem_ofPiecesFrom hb
        split at ha
        next hp =>
          obtain rfl := List.mem_singleton.mp ha
          have hbreak := lineBreaks_pos h hp hq
          simp only
          omega
        next => simp at ha

/-- **Line comments come one line behind another.** -/
theorem pairwise_ofPieces {source : List Char} {pieces : List Piece}
    (h : cut source = .ok pieces) : (ofPieces pieces).Pairwise fun a b => a.line < b.line :=
  pairwise_ofPiecesFrom (cut_eq_ok_iff.mp h)

end LineComment

end DeclLint
