import DeclLint.Proofs.Source.LineEnding
import DeclLint.Proofs.Source.TokenLayout

/-!
# The tokens of a text with carriage returns

They are the tokens of the text without them, each moved by the carriage returns before
it.  A line break is what comes last of its ending, so it starts one character later than
where the text before it ends: nobody who reads tokens looks at where a line break is.

* `Token.moved` — one token;
* `Token.ofPieces_crlf` — the tokens of a text;
* `LineComment.ofPiecesFrom_crlf` — its line comments, which take in a carriage return
  but stay on their lines.
-/

namespace DeclLint

/-- What begins behind some pieces begins with the next of them. -/
theorem Cuts.head?_joinPieces {offset : Nat} {cs : List Char} {ps : List Piece}
    (h : Cuts offset cs ps) : (ps.head?.bind fun next => next.text.head?) = cs.head? := by
  cases h with
  | nil => rfl
  | cons => rfl

/-- No mark is a line break. -/
theorem Cuts.not_mem_of_mark {offset : Nat} {cs : List Char} {p : Piece} {ps : List Piece}
    (h : Cuts offset cs (p :: ps)) (hmark : p.kind = .mark) : '\n' ∉ p.text := by
  have hfits := h.fits
  cases h with
  | @cons offset c cs text rest kind pieces hlead tail =>
      subst hmark
      obtain ⟨d, htext, -⟩ := hfits
      obtain ⟨rfl, rfl⟩ : c = d ∧ text = [] := by simpa using htext
      have hc : c ≠ '\n' := by
        rintro rfl
        rw [leading_lineBreak] at hlead
        simp at hlead
      simpa using hc.symm

namespace Token

/-- A token whose offsets are moved.  A line break is what comes last of its ending. -/
def moved (move : Nat → Nat) (t : Token) : Token :=
  if t.lexeme = .lineBreak then ⟨.lineBreak, move t.start + 1, move t.stop⟩
  else ⟨t.lexeme, move t.start, move t.stop⟩

/-- A mark is told by what is around it, and no line ending tells. -/
theorem lexemeOfMark_congr {before after after' : Option Char} (c : Char)
    (h : after' = some '=' ↔ after = some '=') :
    lexemeOfMark before c after' = lexemeOfMark before c after := by
  simp only [lexemeOfMark, ne_eq, h]

/-- A line break comes behind the carriage return before it. -/
theorem moved_lineBreak {source front back : List Char} (h : source = front ++ '\n' :: back) :
    moved (crlfOffset source) ⟨.lineBreak, utf8Size front, utf8Size front + 1⟩ =
      ⟨.lineBreak, utf8Size (crlf front) + 1, utf8Size (crlf front) + 2⟩ := by
  have hsizes : utf8Size ['\n'] = 1 ∧ utf8Size (crlf ['\n']) = 2 := by decide
  have hsplit : source = (front ++ ['\n']) ++ back := by simp [h]
  have hstop := crlfOffset_of_append hsplit
  rw [utf8Size_append, crlf_append, utf8Size_append, hsizes.1, hsizes.2] at hstop
  simp only [moved, if_true, crlfOffset_of_append h, hstop]

/-- A piece makes the same tokens with carriage returns, each at its moved place: they begin
and end at ends of pieces, and a mark is told by characters that are no line breaks. -/
theorem ofPiece_crlf {source front rest : List Char} {p : Piece} {after after' : Option Char}
    (before : Option Char) (hsource : source = front ++ p.text ++ rest) (hfits : p.Fits rest)
    (hbreak : p.kind ≠ .lineBreak) (hmark : p.kind = .mark → '\n' ∉ p.text)
    (hafter : after' = some '=' ↔ after = some '=') :
    ofPiece (utf8Size (crlf front)) before ⟨p.kind, crlf p.text⟩ after' =
      (ofPiece (utf8Size front) before p after).map (moved (crlfOffset source)) := by
  have hstart : crlfOffset source (utf8Size front) = utf8Size (crlf front) :=
    crlfOffset_of_append (hsource.trans (List.append_assoc _ _ _))
  have hstop : crlfOffset source (utf8Size front + utf8Size p.text) =
      utf8Size (crlf front) + utf8Size (crlf p.text) := by
    rw [← utf8Size_append, crlfOffset_of_append hsource, crlf_append, utf8Size_append]
  unfold Piece.Fits at hfits
  unfold ofPiece
  cases hkind : p.kind with
  | lineBreak => exact absurd hkind hbreak
  | blank => rfl
  | lineComment => rfl
  | blockComment =>
      have hcontains : (crlf p.text).contains '\n' = p.text.contains '\n' := by
        rw [Bool.eq_iff_iff, List.contains_iff_mem, List.contains_iff_mem, mem_crlf_iff (by decide)]
      dsimp only
      rw [hcontains]
      rcases line_cases p.text with ⟨hfree, -⟩ | ⟨line, more, htext, hline, htake, -, htake', -⟩
      · simp [hfree]
      · have hmem : p.text.contains '\n' = true := by simp [htext]
        have hsplit : source = (front ++ line) ++ '\n' :: (more ++ rest) := by
          simp [hsource, htext]
        have hplace := moved_lineBreak hsplit
        have hreturn : utf8Size ['\r'] = 1 := by decide
        rw [utf8Size_append, crlf_append, crlf_of_not_mem hline, utf8Size_append] at hplace
        rw [htake', htake, utf8Size_append, hreturn, if_pos hmem, if_pos hmem, List.map_singleton,
          hplace]
        rfl
  | literal => simp [moved, hstart, hstop]
  | word =>
      rw [hkind] at hfits
      have hword : '\n' ∉ p.text := by
        intro hmem
        exact absurd (hfits.2.1 _ hmem) (by decide)
      rw [crlf_of_not_mem hword] at hstop ⊢
      simp [moved, hstart, hstop]
  | mark =>
      rw [crlf_of_not_mem (hmark hkind)] at hstop ⊢
      rw [hkind] at hfits
      obtain ⟨c, htext, -⟩ := hfits
      have hlexeme : lexemeOfMark before c after ≠ .lineBreak := by
        unfold lexemeOfMark
        split
        · simp
        split <;> simp
      rw [htext] at hstop ⊢
      simpa [moved, hlexeme, lexemeOfMark_congr c hafter, hstart, eq_comm] using hstop

theorem ofPiece_lineBreak (offset : Nat) (before after : Option Char) :
    ofPiece offset before ⟨.lineBreak, ['\n']⟩ after = [⟨.lineBreak, offset, offset + 1⟩] := rfl

/-- **Tokens move.** -/
theorem ofPiecesFrom_crlf {source front : List Char} {ps : List Piece} (before : Option Char)
    (hsource : source = front ++ joinPieces ps) (h : Cuts (utf8Size front) (joinPieces ps) ps)
    (hfree : NoEscapedBreak (joinPieces ps)) :
    ofPiecesFrom (utf8Size (crlf front)) before [] (Piece.crlfAll ps) =
      (ofPiecesFrom (utf8Size front) before [] ps).map (moved (crlfOffset source)) := by
  have hsizes : utf8Size ['\n'] = 1 ∧ utf8Size ['\r'] = 1 ∧ utf8Size (crlf ['\n']) = 2 := by
    decide
  fun_induction Piece.crlfAll ps generalizing front before with
  | case1 => rfl
  | case2 text ending ps ih =>
      have hline : '\n' ∉ text := h.fits.2.1
      have hlast := h.rest
      obtain rfl : ending = ['\n'] := hlast.fits
      have hrest := hlast.rest
      have hsplit : source = (front ++ text) ++ '\n' :: joinPieces ps := by simp [hsource]
      have htail := @ih (front ++ text ++ ['\n']) ['\n'].getLast? (by simp [hsource])
        (by simpa [Nat.add_assoc] using hrest) (hfree.of_suffix ⟨text ++ ['\n'], by simp⟩)
      have hbreak := moved_lineBreak hsplit
      rw [crlf_append, utf8Size_append, utf8Size_append, crlf_of_not_mem hline] at hbreak
      rw [crlf_append, crlf_append, utf8Size_append, utf8Size_append, utf8Size_append,
        utf8Size_append, crlf_of_not_mem hline, hsizes.1, hsizes.2.2] at htail
      simp only [ofPiecesFrom_cons, ofPiece_lineBreak, List.map_append, utf8Size_append,
        hsizes.1, hsizes.2.1, List.map_singleton, hbreak]
      rw [← htail]
      rfl
  | case3 ending ps ih =>
      obtain rfl : ending = ['\n'] := h.fits
      have hrest := h.rest
      have hsplit : source = front ++ '\n' :: joinPieces ps := hsource
      have htail := @ih (front ++ ['\n']) ['\n'].getLast? (by simp [hsource]) (by simpa using hrest)
        (hfree.of_suffix (List.suffix_cons _ _))
      rw [crlf_append, utf8Size_append, utf8Size_append, hsizes.1, hsizes.2.2] at htail
      simp only [ofPiecesFrom_cons, ofPiece_lineBreak, List.map_append, hsizes.1, hsizes.2.1,
        List.map_singleton, moved_lineBreak hsplit]
      rw [← htail]
      rfl
  | case4 p ps hcomment hbreak ih =>
      have hkind : p.kind ≠ .lineBreak := by
        intro hkind
        exact hbreak p.text (by rw [← hkind])
      have hbehind : NoEscapedBreak (joinPieces ps) := hfree.of_suffix (List.suffix_append _ _)
      have hrest := h.rest
      rw [← utf8Size_append] at hrest
      have htail := @ih (front ++ p.text) p.text.getLast? (by simp [hsource]) hrest hbehind
      have hafter : ((Piece.crlfAll ps).head?.bind fun next => next.text.head?) = some '=' ↔
          (ps.head?.bind fun next => next.text.head?) = some '=' := by
        rw [(hrest.crlfAll hbehind 0).head?_joinPieces, hrest.head?_joinPieces]
        exact head?_crlf_eq_iff (by decide) (by decide)
      have hfirst := ofPiece_crlf before (hsource.trans (List.append_assoc _ _ _).symm) h.fits
        hkind (fun hmark => h.not_mem_of_mark hmark) hafter
      rw [crlf_append, utf8Size_append, utf8Size_append] at htail
      rw [ofPiecesFrom_cons, ofPiecesFrom_cons, List.map_append, hfirst, getLast?_crlf, ← htail]

/-- **The tokens of a text with carriage returns.**  They are the tokens of the text without
them, moved. -/
theorem ofPieces_crlf {source : List Char} {pieces : List Piece} (h : cut source = .ok pieces)
    (hfree : NoEscapedBreak source) :
    ofPieces (Piece.crlfAll pieces) = (ofPieces pieces).map (moved (crlfOffset source)) := by
  have hcuts := cut_eq_ok_iff.mp h
  have hjoin := hcuts.join
  subst hjoin
  exact @ofPiecesFrom_crlf _ [] pieces none rfl hcuts hfree

end Token

/-- **Line comments stay.**  Each is on the line on which it was, and says the same to
whoever looks past a carriage return at its end. -/
theorem LineComment.ofPiecesFrom_crlf {β : Type} {read : List Char → β}
    (hread : ∀ text, read (text ++ ['\r']) = read text) {ps : List Piece} {start : Nat}
    (h : Cuts start (joinPieces ps) ps) (offset offset' line : Nat) {done done' : List LineComment}
    (hdone : (done'.map fun c => (c.line, read c.text)) = done.map fun c => (c.line, read c.text)) :
    ((ofPiecesFrom offset' line done' (Piece.crlfAll ps)).map fun c => (c.line, read c.text)) =
      (ofPiecesFrom offset line done ps).map fun c => (c.line, read c.text) := by
  fun_induction Piece.crlfAll ps generalizing start offset offset' line done done' with
  | case1 => simpa [ofPiecesFrom] using hdone
  | case2 text ending ps ih =>
      have hlast := h.rest
      have hlines : (text ++ ['\r']).count '\n' = text.count '\n' := by
        rw [List.count_append]
        rfl
      simp only [ofPiecesFrom, if_true, reduceCtorEq, if_false, hlines]
      refine ih hlast.rest _ _ _ ?_
      simp [hread, hdone]
  | case3 ending ps ih =>
      simp only [ofPiecesFrom, reduceCtorEq, if_false]
      exact ih h.rest _ _ _ hdone
  | case4 p ps hcomment hbreak ih =>
      have hlines : (crlf p.text).count '\n' = p.text.count '\n' := lineBreaks_crlf p.text
      simp only [ofPiecesFrom, hlines]
      refine ih h.rest _ _ _ ?_
      by_cases hkind : p.kind = .lineComment
      · have hfits := h.fits
        unfold Piece.Fits at hfits
        rw [hkind] at hfits
        simp [hkind, crlf_of_not_mem hfits.2.1, hdone]
      · simp [hkind, hdone]

end DeclLint
