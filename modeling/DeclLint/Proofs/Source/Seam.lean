import DeclLint.Proofs.Source.Locality
import DeclLint.Proofs.Source.MovedToken
import DeclLint.Proofs.Source.Partition
import DeclLint.Proofs.Source.Reading

/-!
# Two texts, one behind the other

A text that ends with a line break is read to its end whatever follows: nobody who reads a
piece of it gets past the line break, or looks for one.  What follows is then read as if it
stood alone, except that all offsets count from the beginning of the first text.

* `leading_seam`, `Cuts.reads_seam` — the text before the seam;
* `closeAll_shift`, `leading_shift`, `cutFrom_shift` — the text behind it;
* `cut_append`, `Token.ofPieces_append`, `LineComment.ofPieces_append` — what both make up;
* `Token.ofSource_append` — the tokens and line comments of both, or the error.
-/

namespace DeclLint

/-- The opening as it is behind `n` more bytes. -/
def Opening.shift (n : Nat) : Opening → Opening
  | quote offset hashes multiline => quote (n + offset) hashes multiline
  | paren offset depth => paren (n + offset) depth

@[simp] theorem Opening.unclosed_shift (n : Nat) (opening : Opening) :
    (opening.shift n).unclosed = opening.unclosed.relocate (n + ·) := by
  cases opening <;> rfl

/-- **Literals** are read the same behind `n` more bytes. -/
theorem closeAll_shift (n offset : Nat) (openings : List Opening) (taken cs : List Char) :
    closeAll (n + offset) (openings.map (Opening.shift n)) taken cs =
      (closeAll offset openings taken cs).mapError (ParseError.relocate (n + ·)) := by
  fun_induction closeAll offset openings taken cs with
  | case1 offset taken cs => simp [closeAll, Except.mapError]
  | case2 => simp [closeAll, Except.mapError]
  | case3 offset taken start hashes multiline outer c h =>
      rw [List.map_cons, Opening.shift, closeAll.eq_def]
      simp [h, Except.mapError, ParseError.relocate]
  | case4 offset taken start hashes multiline outer c h rest ih =>
      rw [List.map_cons, Opening.shift, closeAll.eq_def]
      simpa [h, Opening.shift, ← Nat.add_assoc] using ih
  | case5 offset taken start hashes multiline outer c h d rest hd ih =>
      rw [List.map_cons, Opening.shift, closeAll.eq_def]
      simpa [h, hd, Opening.shift, ← Nat.add_assoc] using ih
  | case6 offset taken start hashes multiline outer c cs hescape h =>
      rw [List.map_cons, Opening.shift, closeAll.eq_def]
      simp [h, Except.mapError, ParseError.relocate]
  | case7 offset taken start hashes multiline outer c cs hescape hbreak h ih =>
      rw [List.map_cons, Opening.shift, closeAll.eq_def]
      simpa only [if_neg hescape, if_neg hbreak, if_pos h, ← Nat.add_assoc] using ih
  | case8 offset taken start hashes multiline outer c cs hescape hbreak h ih =>
      rw [List.map_cons, Opening.shift, closeAll.eq_def]
      simpa only [hescape, hbreak, h, if_false, List.map_cons, Opening.shift, ← Nat.add_assoc]
        using ih
  | case9 offset taken start depth outer cs ih =>
      rw [List.map_cons, Opening.shift, closeAll.eq_def]
      simpa [Opening.shift, ← Nat.add_assoc] using ih
  | case10 offset taken start depth outer cs hdepth _ ih =>
      rw [List.map_cons, Opening.shift, closeAll.eq_def]
      simpa [hdepth, ← Nat.add_assoc] using ih
  | case11 offset taken start depth outer cs hdepth _ ih =>
      rw [List.map_cons, Opening.shift, closeAll.eq_def]
      simpa [hdepth, Opening.shift, ← Nat.add_assoc] using ih
  | case12 offset taken start depth outer cs _ _ ih =>
      rw [List.map_cons, Opening.shift, closeAll.eq_def]
      simpa [Opening.shift, ← Nat.add_assoc] using ih
  | case13 offset taken start depth outer cs hquotes _ _ ih =>
      rw [List.map_cons, Opening.shift, closeAll.eq_def]
      simpa [Opening.shift, ← Nat.add_assoc] using ih
  | case14 offset taken start depth outer c cs hopen hclose hquote ih =>
      rw [List.map_cons, Opening.shift, closeAll.eq_def]
      simpa [hopen, hclose, hquote, Opening.shift, ← Nat.add_assoc] using ih

theorem Opening.ofQuote_shift (n offset hashes : Nat) (cs : List Char) :
    ofQuote (n + offset) hashes cs =
      ((ofQuote offset hashes cs).1.shift n, (ofQuote offset hashes cs).2) := by
  unfold ofQuote
  split <;> rfl

/-- A literal elsewhere is the literal, and its error is shifted. -/
theorem leadingLiteral_shift (n offset hashes : Nat) (cs : List Char) :
    leadingLiteral (n + offset) hashes cs =
      (leadingLiteral offset hashes cs).mapError (ParseError.relocate (n + ·)) := by
  unfold leadingLiteral
  rw [Opening.ofQuote_shift]
  dsimp only
  rw [← closeAll_shift]
  simp only [List.map_cons, List.map_nil, Nat.add_assoc]

theorem mapError_map {ε ε' α β : Type} (f : ε → ε') (g : α → β) (x : Except ε α) :
    (x.map g).mapError f = (x.mapError f).map g := by
  cases x <;> rfl

/-- **Pieces** are read the same behind `n` more bytes. -/
theorem leading_shift (n offset : Nat) (c : Char) (cs : List Char) :
    leading (n + offset) c cs = (leading offset c cs).mapError (ParseError.relocate (n + ·)) := by
  unfold leading
  split
  · rfl
  split
  · rfl
  split
  · rfl
  split
  · split <;> rfl
  split
  · rw [leadingLiteral_shift, mapError_map]
  split
  · dsimp only
    rw [mapError_map, ← leadingLiteral_shift, Nat.add_assoc, Nat.add_assoc, Nat.add_assoc]
  split
  · rfl
  · rfl

/-- **The text behind the seam** is cut the same behind `n` more bytes and some pieces. -/
theorem cutFrom_shift (n offset : Nat) (front done : List Piece) (cs : List Char) :
    cutFrom (n + offset) (done ++ front) cs =
      ((cutFrom offset done cs).mapError (ParseError.relocate (n + ·))).map fun pieces =>
        front.reverse ++ pieces := by
  fun_induction cutFrom offset done cs with
  | case1 => simp [cutFrom, Except.mapError, Except.map]
  | case2 offset done c cs e hlead =>
      have hthere := leading_shift n offset c cs
      rw [hlead] at hthere
      rw [cutFrom]
      split
      next e' herror =>
        obtain rfl : e' = e.relocate (n + ·) := Except.error.inj (herror.symm.trans hthere)
        rfl
      next hok => simp [hthere, Except.mapError] at hok
  | case3 offset done c cs kind text rest hlead _ ih =>
      have hthere := leading_shift n offset c cs
      rw [hlead] at hthere
      rw [cutFrom]
      split
      next e' herror => simp [hthere, Except.mapError] at herror
      next kind' text' rest' hlead' =>
        obtain ⟨rfl, rfl, rfl⟩ : kind = kind' ∧ text = text' ∧ rest = rest' := by
          simpa [hthere, Except.mapError] using hlead'
        rw [← ih, List.cons_append, Nat.add_assoc, Nat.add_assoc, Nat.add_assoc]

/-- A text that another one may follow: it is empty or ends with a line break. -/
def EndsLines (cs : List Char) : Prop := cs = [] ∨ cs.getLast? = some '\n'

/-- The end of a text ends its lines as the text does. -/
theorem EndsLines.of_suffix {cs rest : List Char} (h : EndsLines cs) (hrest : rest <:+ cs) :
    EndsLines rest := by
  obtain ⟨front, rfl⟩ := hrest
  rcases h with hnil | hlast
  · exact .inl (List.append_eq_nil_iff.mp hnil).2
  · cases rest with
    | nil => exact .inl rfl
    | cons c rest => exact .inr (by simpa [List.getLast?_append] using hlast)

/-- A text that ends with a line break, unless it is empty. -/
theorem EndsLines.exists_eq {cs : List Char} (h : EndsLines cs) (hcs : cs ≠ []) :
    ∃ front, cs = front ++ ['\n'] := by
  rcases h with hnil | hlast
  · exact absurd hnil hcs
  · exact List.getLast?_eq_some_iff.mp hlast

/-- A line ends where it ends, whatever follows. -/
theorem line_seam (front more : List Char) :
    (front ++ '\n' :: more).takeWhile (· ≠ '\n') = (front ++ ['\n']).takeWhile (· ≠ '\n') ∧
      (front ++ '\n' :: more).dropWhile (· ≠ '\n') =
        (front ++ ['\n']).dropWhile (· ≠ '\n') ++ more := by
  induction front with
  | nil => simp
  | cons c front ih =>
      by_cases hc : c = '\n'
      · simp [hc]
      · simpa [hc] using ih

/-- **A piece before the seam.**  What follows its last line break is not looked at. -/
theorem leading_seam {offset : Nat} {c : Char} {cs text rest : List Char} {kind : PieceKind}
    (h : leading offset c cs = .ok (kind, text, rest)) (hends : EndsLines (c :: cs))
    (more : List Char) : leading offset c (cs ++ more) = .ok (kind, text, rest ++ more) := by
  obtain ⟨front, hfront⟩ := hends.exists_eq (List.cons_ne_nil c cs)
  cases front with
  | nil =>
      -- the line break itself
      obtain ⟨rfl, rfl⟩ := List.cons.inj hfront
      rw [leading_lineBreak] at h ⊢
      obtain ⟨rfl, rfl, rfl⟩ : .lineBreak = kind ∧ [] = text ∧ [] = rest := by simpa using h
      rfl
  | cons d front =>
      obtain ⟨rfl, rfl⟩ : c = d ∧ cs = front ++ ['\n'] := List.cons.inj hfront
      have hsplit := leading_split h
      by_cases hkind : kind = .lineComment
      · obtain ⟨rfl, hslash⟩ := (kind_of_leading h).2 hkind
        obtain ⟨tail, htail⟩ := List.head?_eq_some_iff.mp hslash
        have hline := line_seam front more
        rw [leading_comment offset hslash] at h
        rw [leading_comment offset (by rw [htail]; rfl), List.append_assoc, List.singleton_append,
          hline.1, hline.2]
        obtain ⟨rfl, rfl, rfl⟩ : .lineComment = kind ∧ _ = text ∧ _ = rest := by simpa using h
        simp
      · have halike : Alike (text ++ rest) (text ++ (rest ++ more)) := by
          refine .inr ⟨front, '\n', '\n', [], more, hsplit, ?_, ?_, ?_, by decide⟩
          · rw [← List.append_assoc, hsplit]
            simp
          · simp [Unsought]; decide
          · simp [Unsought]; decide
        rw [← hsplit] at h ⊢
        rw [List.append_assoc]
        exact leading_of_alike h hkind halike

/-- **The text before the seam** is cut as if nothing followed. -/
theorem Cuts.reads_seam {offset : Nat} {cs : List Char} {ps : List Piece} (h : Cuts offset cs ps)
    (hends : EndsLines cs) (more : List Char) : Reads offset (cs ++ more) ps more := by
  induction h with
  | nil => exact .nil _ _
  | @cons offset c cs text rest kind pieces hlead tail ih =>
      have hsplit := leading_split hlead
      have hrest : rest <:+ c :: cs := ⟨c :: text, by rw [List.cons_append, hsplit]⟩
      exact .cons (leading_seam hlead hends more) (ih (hends.of_suffix hrest))

/-- **The pieces of both texts.** -/
theorem cut_append {cs : List Char} {ps : List Piece} (h : cut cs = .ok ps)
    (hends : EndsLines cs) (more : List Char) :
    cut (cs ++ more) = ((cut more).mapError (ParseError.relocate (utf8Size cs + ·))).map (ps ++ ·) := by
  have hreads := (cut_eq_ok_iff.mp h).reads_seam hends more
  have hbehind := cutFrom_shift (utf8Size cs) 0 ps.reverse [] more
  rw [List.reverse_reverse] at hbehind
  rw [cut, hreads.cutFrom_eq, cut_join h, Nat.zero_add, List.append_nil]
  exact hbehind

namespace Token

variable {offset : Nat} {cs : List Char} {ps : List Piece}

/-- The token as it is behind `n` more bytes. -/
def shift (n : Nat) (t : Token) : Token := ⟨t.lexeme, n + t.start, n + t.stop⟩

/-- A piece makes the same tokens behind `n` more bytes. -/
theorem ofPiece_shift (n offset : Nat) (before : Option Char) (p : Piece) (after : Option Char) :
    ofPiece (n + offset) before p after = (ofPiece offset before p after).map (shift n) := by
  unfold ofPiece
  cases p.kind with
  | blank => rfl
  | lineComment => rfl
  | blockComment =>
      dsimp only
      split
      · simp [shift, Nat.add_assoc]
      · rfl
  | lineBreak | literal | word | mark => simp [shift, Nat.add_assoc]

/-- The comments of pieces elsewhere are the comments, shifted. -/
theorem ofPiecesFrom_shift (n offset : Nat) (before : Option Char) (ps : List Piece) :
    ofPiecesFrom (n + offset) before [] ps = (ofPiecesFrom offset before [] ps).map (shift n) := by
  induction ps generalizing offset before with
  | nil => rfl
  | cons p ps ih =>
      rw [ofPiecesFrom_cons, ofPiecesFrom_cons, List.map_append, ofPiece_shift, Nat.add_assoc, ih]

/-- A line break before some pieces tells as much as nothing. -/
theorem ofPiecesFrom_lineBreak (offset : Nat) (ps : List Piece) :
    ofPiecesFrom offset (some '\n') [] ps = ofPiecesFrom offset none [] ps := by
  have hlexeme : ∀ c after, lexemeOfMark (some '\n') c after = lexemeOfMark none c after := by
    intro c after
    simp [lexemeOfMark, comparisonStarts]
  cases ps with
  | nil => rfl
  | cons p ps =>
      rw [ofPiecesFrom_cons, ofPiecesFrom_cons]
      simp only [ofPiece, hlexeme]

/-- **The tokens before the seam.**  The last piece there holds a line break, so it is no mark
and is not told by what follows it. -/
theorem ofPiecesFrom_seam (h : Cuts offset cs ps) (hends : EndsLines cs) {before : Option Char}
    (hbefore : cs = [] → before = none ∨ before = some '\n') (qs : List Piece) :
    ofPiecesFrom offset before [] (ps ++ qs) =
      ofPiecesFrom offset before [] ps ++ ofPiecesFrom (offset + utf8Size cs) none [] qs := by
  induction ps generalizing offset cs before with
  | nil =>
      obtain rfl : [] = cs := h.join
      rcases hbefore rfl with rfl | rfl
      · rfl
      · exact ofPiecesFrom_lineBreak offset qs
  | cons p ps ih =>
      obtain rfl : p.text ++ joinPieces ps = cs := h.join
      have hrest := hends.of_suffix (List.suffix_append p.text (joinPieces ps))
      have hbehind : joinPieces ps = [] → p.text.getLast? = some '\n' := by
        intro hnil
        rw [hnil, List.append_nil] at hends
        exact hends.resolve_left h.fits.text_ne_nil
      have hfirst : ofPiece offset before p ((ps ++ qs).head?.bind fun next => next.text.head?) =
          ofPiece offset before p (ps.head?.bind fun next => next.text.head?) := by
        cases ps with
        | nil =>
            apply ofPiece_of_ne_mark
            intro hmark
            exact h.not_mem_of_mark hmark (List.mem_of_getLast? (hbehind rfl))
        | cons q ps => rfl
      rw [List.cons_append, ofPiecesFrom_cons, ofPiecesFrom_cons, hfirst,
        ih h.rest hrest (fun hnil => .inr (hbehind hnil)), utf8Size_append, List.append_assoc,
        Nat.add_assoc]

/-- The tokens of both texts. -/
theorem ofPieces_append (h : cut cs = .ok ps) (hends : EndsLines cs) (qs : List Piece) :
    ofPieces (ps ++ qs) = ofPieces ps ++ (ofPieces qs).map (shift (utf8Size cs)) := by
  have hseam := ofPiecesFrom_seam (cut_eq_ok_iff.mp h) hends (fun _ => .inl rfl) qs
  have hshift := ofPiecesFrom_shift (utf8Size cs) 0 none qs
  rw [Nat.zero_add] at hseam
  rw [ofPieces, hseam, ← Nat.add_zero (utf8Size cs), hshift]
  rfl

end Token

namespace LineComment

/-- The comment as it is behind `n` more bytes and `lines` more lines. -/
def shift (n lines : Nat) (c : LineComment) : LineComment := ⟨n + c.start, lines + c.line, c.text⟩

theorem ofPiecesFrom_shift (n lines offset line : Nat) (ps : List Piece) :
    ofPiecesFrom (n + offset) (lines + line) [] ps =
      (ofPiecesFrom offset line [] ps).map (shift n lines) := by
  induction ps generalizing offset line with
  | nil => rfl
  | cons p ps ih =>
      rw [ofPiecesFrom_cons, ofPiecesFrom_cons, List.map_append, Nat.add_assoc, Nat.add_assoc, ih]
      split <;> rfl

/-- The comments of two lists of pieces, one behind the other. -/
theorem ofPiecesFrom_append (offset line : Nat) (ps qs : List Piece) :
    ofPiecesFrom offset line [] (ps ++ qs) =
      ofPiecesFrom offset line [] ps ++ ofPiecesFrom (offset + utf8Size (joinPieces ps))
        (line + lineBreaks (joinPieces ps)) [] qs := by
  induction ps generalizing offset line with
  | nil => rfl
  | cons p ps ih =>
      rw [List.cons_append, ofPiecesFrom_cons, ofPiecesFrom_cons, ih, joinPieces_cons,
        utf8Size_append, lineBreaks_append, List.append_assoc, Nat.add_assoc, Nat.add_assoc]

/-- The line comments of both texts. -/
theorem ofPieces_append {cs : List Char} {ps : List Piece} (h : cut cs = .ok ps)
    (qs : List Piece) :
    ofPieces (ps ++ qs) =
      ofPieces ps ++ (ofPieces qs).map (shift (utf8Size cs) (lineBreaks cs)) := by
  have hshift := ofPiecesFrom_shift (utf8Size cs) (lineBreaks cs) 0 1 qs
  rw [ofPieces, ofPiecesFrom_append, cut_join h, Nat.zero_add, Nat.add_comm 1]
  rw [Nat.add_zero] at hshift
  rw [hshift]
  rfl

/-- A line comment begins inside of its text. -/
theorem start_lt {cs : List Char} {ps : List Piece} (h : cut cs = .ok ps) {c : LineComment}
    (hc : c ∈ ofPieces ps) : c.start < utf8Size cs := by
  obtain ⟨p, hp, -, -⟩ := exists_standsAt hc
  obtain ⟨front, back, hsource, hstart, hfits⟩ := hp.exists_text h
  have hpos : utf8Size p.text ≠ 0 := mt utf8Size_eq_zero_iff.mp hfits.text_ne_nil
  rw [hsource, utf8Size_append, utf8Size_append, hstart]
  omega

end LineComment

/-- **Tokens and line comments of two texts.**  Behind a text that is empty or ends with a line
break, another text has the tokens and line comments that it has alone, moved by the bytes
before it, and a comment by the lines before it.  If it is refused alone, then it is refused
there, for the same reason and at the byte where the reason is now.  So of the text before it
nothing but its length tells in the comments behind it. -/
theorem Token.ofSource_append {a b : String} {tokens : List Token} {comments : List LineComment}
    (hends : EndsLines a.toList) (h : ofSource a = .ok (tokens, comments)) :
    (∀ tokens' comments', ofSource b = .ok (tokens', comments') →
      ofSource (a ++ b) = .ok (tokens ++ tokens'.map (shift a.utf8ByteSize),
        comments ++ comments'.map (LineComment.shift a.utf8ByteSize (lineBreaks a.toList)))) ∧
    (∀ e, ofSource b = .error e → ofSource (a ++ b) = .error (e.relocate (a.utf8ByteSize + ·))) ∧
    (lineComments (a ++ b)).map (List.filter fun c => decide (a.utf8ByteSize ≤ c.start)) =
      ((lineComments b).map
        (List.map (LineComment.shift a.utf8ByteSize (lineBreaks a.toList)))).mapError
          (ParseError.relocate (a.utf8ByteSize + ·)) := by
  obtain ⟨ps, hcut, rfl, rfl⟩ := ofSource_eq_ok_iff.mp h
  have happend := cut_append hcut hends b.toList
  rw [← String.toList_append] at happend
  rw [utf8ByteSize_eq_utf8Size]
  refine ⟨?_, ?_, ?_⟩
  · intro tokens' comments' hb
    obtain ⟨qs, hcut', rfl, rfl⟩ := ofSource_eq_ok_iff.mp hb
    rw [hcut'] at happend
    exact ofSource_eq_ok_iff.mpr
      ⟨ps ++ qs, happend, ofPieces_append hcut hends qs, LineComment.ofPieces_append hcut qs⟩
  · intro e hb
    rw [ofSource_eq_error_iff.mp hb] at happend
    exact ofSource_eq_error_iff.mpr happend
  · unfold lineComments
    rw [happend]
    cases hcut' : cut b.toList with
    | error e => rfl
    | ok qs =>
        have hbefore : (LineComment.ofPieces ps).filter
            (fun c => decide (utf8Size a.toList ≤ c.start)) = [] := by
          apply List.filter_eq_nil_iff.mpr
          intro c hc
          have hlt := LineComment.start_lt hcut hc
          simpa using hlt
        have hbehind : ((LineComment.ofPieces qs).map (LineComment.shift (utf8Size a.toList)
            (lineBreaks a.toList))).filter (fun c => decide (utf8Size a.toList ≤ c.start)) =
            (LineComment.ofPieces qs).map
              (LineComment.shift (utf8Size a.toList) (lineBreaks a.toList)) := by
          apply List.filter_eq_self.mpr
          intro c hc
          obtain ⟨c', -, rfl⟩ := List.mem_map.mp hc
          simp [LineComment.shift]
        simp only [Except.mapError, Except.map]
        rw [LineComment.ofPieces_append hcut, List.filter_append, hbefore, hbehind]
        rfl

/-- A line comment with a letter of two bytes is before the seam.  Behind it there is a line
comment again, or a literal that is never closed. -/
theorem Token.ofSource_append_comment :
    ofSource "é//é\n" = .ok ([⟨.word "é", 0, 2⟩, ⟨.lineBreak, 6, 7⟩], [⟨2, 1, "//é".toList⟩]) ∧
    ofSource ("é//é\n" ++ "y//z") =
      .ok ([⟨.word "é", 0, 2⟩, ⟨.lineBreak, 6, 7⟩, ⟨.word "y", 7, 8⟩],
        [⟨2, 1, "//é".toList⟩, ⟨8, 2, "//z".toList⟩]) ∧
    ofSource ("é//é\n" ++ "y\"//z") = .error (.unterminated .stringLiteral 8) := by
  have hbefore : ofSource "é//é\n" =
      .ok ([⟨.word "é", 0, 2⟩, ⟨.lineBreak, 6, 7⟩], [⟨2, 1, "//é".toList⟩]) := by
    with_unfolding_all rfl
  have hends : EndsLines "é//é\n".toList := .inr rfl
  refine ⟨hbefore, ?_, ?_⟩
  · apply (ofSource_append hends hbefore).1 [⟨.word "y", 0, 1⟩] [⟨1, 1, "//z".toList⟩]
    with_unfolding_all rfl
  · apply (ofSource_append hends hbefore).2.1 (.unterminated .stringLiteral 1)
    with_unfolding_all rfl

end DeclLint
