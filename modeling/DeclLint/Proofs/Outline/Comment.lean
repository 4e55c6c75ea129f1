import DeclLint.Proofs.Correction.Splice
import DeclLint.Proofs.Outline.Derivation
import DeclLint.Proofs.Source.Locality
import DeclLint.Proofs.Source.MovedToken
import DeclLint.Proofs.Text.Byte

/-!
# Line comments say nothing to the outline

A line comment bears no token, and a text whose line comments are blanks, byte for byte,
is cut into the same pieces, apart from the comments (`Cuts.blankedAll`).  There are two
places where one could still be noticed: a mark is told by the characters around it.  But
a slash behind it tells no more than a blank does, and behind a comment there is a line
break, which is no mark.  So the two texts have the same tokens, and with these the same
tree, or the same error.

* `Cuts.blankedAll` — the pieces of the text with blanks for its line comments;
* `Token.ofPieces_blankedAll` — its tokens;
* `utf8Bytes_blankedAll` — its bytes: those of the comments are blanks;
* `declarationTree_blanked` — it has the tree of the text, or its error.
-/

namespace DeclLint

/-- A blank. -/
def Piece.blank : Piece := ⟨.blank, [' ']⟩

/-- A piece, or blanks for its bytes if it is a line comment. -/
def Piece.blanked (p : Piece) : List Piece :=
  if p.kind = .lineComment then List.replicate (utf8Size p.text) blank else [p]

/-- Some pieces with blanks for their line comments. -/
def Piece.blankedAll (ps : List Piece) : List Piece := ps.flatMap Piece.blanked

namespace Piece

variable {p : Piece} {ps : List Piece}

@[simp] theorem blankedAll_nil : blankedAll [] = [] := rfl

theorem blankedAll_of_comment (h : p.kind = .lineComment) :
    blankedAll (p :: ps) = List.replicate (utf8Size p.text) blank ++ blankedAll ps := by
  rw [blankedAll, List.flatMap_cons, blanked, if_pos h]
  rfl

theorem blankedAll_of_other (h : p.kind ≠ .lineComment) :
    blankedAll (p :: ps) = p :: blankedAll ps := by
  rw [blankedAll, List.flatMap_cons, blanked, if_neg h]
  rfl

@[simp] theorem joinPieces_blanks (n : Nat) :
    joinPieces (List.replicate n blank) = List.replicate n ' ' := by
  induction n with
  | zero => rfl
  | succ n ih => rw [List.replicate_succ, joinPieces_cons, ih]; rfl

end Piece

namespace Cuts

variable {offset : Nat} {cs : List Char} {ps : List Piece}

/-- Blanks are pieces of their own. -/
theorem blanks (n : Nat) (h : Cuts (offset + n) cs ps) :
    Cuts offset (List.replicate n ' ' ++ cs) (List.replicate n Piece.blank ++ ps) := by
  induction n generalizing offset with
  | zero => exact h
  | succ n ih =>
      have hlead : leading offset ' ' (List.replicate n ' ' ++ cs) =
          .ok (.blank, [], List.replicate n ' ' ++ cs) := by
        simp [leading]
      have hsize : ' '.utf8Size = 1 := rfl
      refine .cons hlead (ih ?_)
      rw [hsize, utf8Size_nil]
      rwa [show offset + 1 + 0 + n = offset + (n + 1) by omega]

/-- The two texts agree up to the first line comment. -/
theorem blanked (h : Cuts offset (joinPieces ps) ps) :
    Blanked (joinPieces ps) (joinPieces (Piece.blankedAll ps)) := by
  induction ps generalizing offset with
  | nil => exact .inl rfl
  | cons p ps ih =>
      by_cases hkind : p.kind = .lineComment
      · have hfits := h.fits
        unfold Piece.Fits at hfits
        rw [hkind] at hfits
        obtain ⟨⟨more, htext⟩, -⟩ := hfits
        have hslash : '/'.utf8Size = 1 := rfl
        obtain ⟨n, hn⟩ : ∃ n, utf8Size p.text = n + 1 :=
          ⟨_, by rw [htext, utf8Size_cons, hslash, Nat.add_comm]⟩
        refine .inr ⟨[], '/' :: more ++ joinPieces ps,
          List.replicate n ' ' ++ joinPieces (Piece.blankedAll ps), ?_, ?_⟩
        · rw [joinPieces_cons, htext]
          rfl
        · rw [Piece.blankedAll_of_comment hkind, joinPieces_append, Piece.joinPieces_blanks, hn]
          rfl
      · rw [Piece.blankedAll_of_other hkind]
        exact (ih h.rest).append p.text

/-- **Pieces.**  The text with blanks is cut like the text itself. -/
theorem blankedAll (h : Cuts offset (joinPieces ps) ps) :
    Cuts offset (joinPieces (Piece.blankedAll ps)) (Piece.blankedAll ps) := by
  induction ps generalizing offset with
  | nil => exact .nil offset
  | cons p ps ih =>
      have hrest := h.rest
      by_cases hkind : p.kind = .lineComment
      · rw [Piece.blankedAll_of_comment hkind, joinPieces_append, Piece.joinPieces_blanks]
        exact blanks _ (ih hrest)
      · rw [Piece.blankedAll_of_other hkind]
        have hblanked := hrest.blanked
        have hthere := ih hrest
        generalize joinPieces (p :: ps) = cs at h
        cases h with
        | @cons offset c cs text rest kind pieces hlead tail =>
            rw [← leading_split hlead, ← tail.join] at hlead
            rw [joinPieces_cons]
            refine .cons (leading_local hlead hkind hblanked) ?_
            rwa [utf8Size_cons, ← Nat.add_assoc] at hthere

end Cuts

namespace Token

/-- Blanks bear no tokens. -/
theorem ofPiecesFrom_blanks (offset n : Nat) (before : Option Char) (ps : List Piece) :
    ∃ before', ofPiecesFrom offset before [] (List.replicate n Piece.blank ++ ps) =
      ofPiecesFrom (offset + n) before' [] ps := by
  induction n generalizing offset before with
  | zero => exact ⟨before, rfl⟩
  | succ n ih =>
      obtain ⟨before', hrest⟩ := ih (offset + 1) (some ' ')
      refine ⟨before', ?_⟩
      rw [List.replicate_succ, List.cons_append, ofPiecesFrom_cons, Nat.add_comm n 1,
        ← Nat.add_assoc, ← hrest]
      rfl

/-- **Tokens.**  They do not tell blanks from a comment.  The character before them does
not matter where a line break is next. -/
theorem ofPiecesFrom_blankedAll {offset : Nat} {ps : List Piece} {before before' : Option Char}
    (h : Cuts offset (joinPieces ps) ps)
    (hbefore : before' = before ∨ ∀ c ∈ (joinPieces ps).head?, c = '\n') :
    ofPiecesFrom offset before' [] (Piece.blankedAll ps) = ofPiecesFrom offset before [] ps := by
  induction ps generalizing offset before before' with
  | nil => rfl
  | cons p ps ih =>
      have hrest := h.rest
      by_cases hkind : p.kind = .lineComment
      · obtain ⟨between, hblanks⟩ :=
          ofPiecesFrom_blanks offset (utf8Size p.text) before' (Piece.blankedAll ps)
        have hends : ∀ c ∈ (joinPieces ps).head?, c = '\n' := by
          have hfits := h.fits
          unfold Piece.Fits at hfits
          rw [hkind] at hfits
          exact hfits.2.2
        have hnone : ofPiece offset before p (ps.head?.bind fun next => next.text.head?) = [] := by
          unfold ofPiece
          rw [hkind]
        rw [Piece.blankedAll_of_comment hkind, hblanks, ofPiecesFrom_cons, hnone, List.nil_append]
        exact ih hrest (.inr hends)
      · have hfirst : ofPiece offset before' p
            ((Piece.blankedAll ps).head?.bind fun next => next.text.head?) =
              ofPiece offset before p (ps.head?.bind fun next => next.text.head?) := by
          by_cases hmark : p.kind = .mark
          · obtain ⟨c, htext, -⟩ : ∃ c, p.text = [c] ∧ isWordChar c = false := by
              have hfits := h.fits
              unfold Piece.Fits at hfits
              rwa [hmark] at hfits
            have hsame : before' = before := by
              rcases hbefore with hsame | hbreak
              · exact hsame
              · have hfree := h.not_mem_of_mark hmark
                rw [joinPieces_cons, htext] at hbreak
                rw [htext, hbreak c rfl] at hfree
                exact absurd (List.mem_singleton.mpr rfl) hfree
            have hafter := hrest.blanked.alike.head? (c := '=') (by simp [Unsought])
            rw [← hrest.head?_joinPieces, ← hrest.blankedAll.head?_joinPieces] at hafter
            unfold ofPiece
            rw [hmark, hsame, htext]
            simp only [List.map_cons, List.map_nil, lexemeOfMark_congr c hafter]
          · exact ofPiece_of_ne_mark hmark _ _ _ _ _
        rw [Piece.blankedAll_of_other hkind, ofPiecesFrom_cons, ofPiecesFrom_cons, hfirst,
          ih hrest (.inl rfl)]

/-- The tokens of a text are those of the text with blanks for its line comments. -/
theorem ofPieces_blankedAll {source : List Char} {pieces : List Piece}
    (h : cut source = .ok pieces) : ofPieces (Piece.blankedAll pieces) = ofPieces pieces := by
  have hcuts := cut_eq_ok_iff.mp h
  have hjoin := hcuts.join
  subst hjoin
  exact ofPiecesFrom_blankedAll hcuts (.inl rfl)

end Token

/-- A text is told by its bytes. -/
theorem eq_of_utf8Bytes_eq {s s' : String} (h : utf8Bytes s.toList = utf8Bytes s'.toList) :
    s = s' := by
  have hbytes : s.toList.utf8Encode = s'.toList.utf8Encode := congrArg List.toByteArray h
  rwa [String.utf8Encode_toList, String.utf8Encode_toList, String.toByteArray_inj] at hbytes

namespace ByteRange

/-- Whether a byte belongs to a span. -/
def covers (r : ByteRange) (offset : Nat) : Bool :=
  decide (r.location ≤ offset) && decide (offset < r.stop)

end ByteRange

/-- Some bytes with blanks for those of some spans. -/
def blankBytes (spans : List ByteRange) (bytes : List UInt8) : List UInt8 :=
  bytes.mapIdx fun offset b => if spans.any (ByteRange.covers · offset) then 0x20 else b

namespace LineComment

/-- Whether a byte belongs to one of the line comments of some pieces. -/
def covered (offset line : Nat) (ps : List Piece) (place : Nat) : Bool :=
  ((ofPiecesFrom offset line [] ps).map range).any (ByteRange.covers · place)

theorem covered_of_lt {offset place : Nat} (line : Nat) (ps : List Piece) (h : place < offset) :
    covered offset line ps place = false := by
  refine List.any_eq_false.mpr fun r hr => ?_
  obtain ⟨c, hc, rfl⟩ := List.mem_map.mp hr
  obtain ⟨_, _, _, -, -, hstart, -⟩ := mem_ofPiecesFrom hc
  have hle : ¬ c.start ≤ place := by omega
  simp [range, ByteRange.covers, hle]

/-- The bytes of a piece belong to a line comment exactly if the piece is one. -/
theorem covered_cons_of_lt {offset line place : Nat} {p : Piece} (ps : List Piece)
    (hle : offset ≤ place) (hlt : place < offset + utf8Size p.text) :
    covered offset line (p :: ps) place = decide (p.kind = .lineComment) := by
  have hbehind := covered_of_lt (line + lineBreaks p.text) ps hlt
  unfold covered at hbehind ⊢
  rw [ofPiecesFrom_cons, List.map_append, List.any_append, hbehind, Bool.or_false]
  by_cases hkind : p.kind = .lineComment
  · simp [hkind, range, ByteRange.covers, ByteRange.stop, hle, hlt]
  · simp [hkind]

/-- Those behind a piece belong to a comment behind it, if to any. -/
theorem covered_cons_of_le {offset line place : Nat} {p : Piece} (ps : List Piece)
    (hle : offset + utf8Size p.text ≤ place) :
    covered offset line (p :: ps) place =
      covered (offset + utf8Size p.text) (line + lineBreaks p.text) ps place := by
  unfold covered
  rw [ofPiecesFrom_cons, List.map_append, List.any_append]
  by_cases hkind : p.kind = .lineComment
  · have hnot : ¬ place < offset + utf8Size p.text := Nat.not_lt.mpr hle
    simp [hkind, range, ByteRange.covers, ByteRange.stop, hnot]
  · simp [hkind]

end LineComment

/-- **Bytes.**  Those of the text with blanks are those of the text, with blanks for the
bytes of its line comments. -/
theorem utf8Bytes_blankedAll (offset line : Nat) (ps : List Piece) :
    utf8Bytes (joinPieces (Piece.blankedAll ps)) =
      (utf8Bytes (joinPieces ps)).mapIdx fun i b =>
        if LineComment.covered offset line ps (offset + i) then 0x20 else b := by
  induction ps generalizing offset line with
  | nil => rfl
  | cons p ps ih =>
      have hbehind : ((utf8Bytes (joinPieces ps)).mapIdx fun i b =>
          if LineComment.covered offset line (p :: ps)
            (offset + (i + (utf8Bytes p.text).length)) then 0x20 else b) =
          utf8Bytes (joinPieces (Piece.blankedAll ps)) := by
        rw [ih (offset + utf8Size p.text) (line + lineBreaks p.text)]
        congr 1
        funext i b
        rw [length_utf8Bytes, LineComment.covered_cons_of_le ps (by omega), Nat.add_assoc,
          Nat.add_comm i]
      have hfirst : ((utf8Bytes p.text).mapIdx fun i b =>
          if LineComment.covered offset line (p :: ps) (offset + i) then 0x20 else b) =
          utf8Bytes (joinPieces p.blanked) := by
        have hcovered : ∀ i < utf8Size p.text, LineComment.covered offset line (p :: ps)
            (offset + i) = decide (p.kind = .lineComment) := fun i hi =>
          LineComment.covered_cons_of_lt ps (Nat.le_add_right _ _) (by omega)
        unfold Piece.blanked
        by_cases hkind : p.kind = .lineComment
        · rw [if_pos hkind, Piece.joinPieces_blanks, utf8Bytes_replicate (by decide)]
          refine List.ext_getElem (by simp) fun i hi _ => ?_
          rw [List.length_mapIdx, length_utf8Bytes] at hi
          rw [List.getElem_mapIdx, hcovered i hi, List.getElem_replicate, hkind]
          rfl
        · rw [if_neg hkind, joinPieces_cons, joinPieces_nil, List.append_nil]
          refine List.ext_getElem (by simp) fun i hi _ => ?_
          rw [List.length_mapIdx, length_utf8Bytes] at hi
          rw [List.getElem_mapIdx, hcovered i hi, decide_eq_false hkind]
          rfl
      rw [joinPieces_cons, utf8Bytes_append, List.mapIdx_append, hbehind, hfirst,
        ← utf8Bytes_append, ← joinPieces_append]
      rfl

/-- **Line comments say nothing.**  A text that is cut has the tree, or the error, of the one
whose bytes are the same, apart from those of its line comments, which are blanks. -/
theorem declarationTree_blanked {source : String} {comments : List LineComment}
    (h : lineComments source = .ok comments) :
    (∃ blanked : String, utf8Bytes blanked.toList =
      blankBytes (comments.map LineComment.range) (utf8Bytes source.toList)) ∧
    ∀ blanked : String, utf8Bytes blanked.toList =
      blankBytes (comments.map LineComment.range) (utf8Bytes source.toList) →
        declarationTree blanked = declarationTree source := by
  obtain ⟨pieces, hcut, rfl⟩ := exists_of_map_eq_ok h
  have hcuts := cut_eq_ok_iff.mp hcut
  have hjoin := hcuts.join
  have hbytes : utf8Bytes (String.ofList (joinPieces (Piece.blankedAll pieces))).toList =
      blankBytes ((LineComment.ofPieces pieces).map LineComment.range)
        (utf8Bytes source.toList) := by
    have hblanked := utf8Bytes_blankedAll 0 1 pieces
    simp only [Nat.zero_add] at hblanked
    rw [String.toList_ofList, hblanked, hjoin]
    rfl
  refine ⟨⟨_, hbytes⟩, fun blanked hblanked => ?_⟩
  obtain rfl := eq_of_utf8Bytes_eq (hblanked.trans hbytes.symm)
  have hthere : cut (String.ofList (joinPieces (Piece.blankedAll pieces))).toList =
      .ok (Piece.blankedAll pieces) := by
    rw [String.toList_ofList, cut_eq_ok_iff]
    rw [← hjoin] at hcuts
    exact hcuts.blankedAll
  have hsize : (String.ofList (joinPieces (Piece.blankedAll pieces))).utf8ByteSize =
      source.utf8ByteSize := by
    have hlength := congrArg List.length hbytes
    rw [blankBytes, List.length_mapIdx, length_utf8Bytes, length_utf8Bytes, ← utf8ByteSize_ofList,
      ← utf8ByteSize_ofList, String.ofList_toList, String.ofList_toList] at hlength
    exact hlength
  rw [declarationTree_of_cut hthere, declarationTree_of_cut hcut, Token.ofPieces_blankedAll hcut,
    hsize]

/-- A comment that holds a quote, a brace and a letter of two bytes, between a name and the
value that it is given on the next line. -/
theorem declarationTree_blanked_value :
    lineComments "let a // \x22\x7bé\n= 1" = .ok [⟨6, 1, "// \x22\x7bé".toList⟩] ∧
      declarationTree "let a        \n= 1" = declarationTree "let a // \x22\x7bé\n= 1" ∧
      declarationTree "let a        \n= 1" =
        .ok { range := some ⟨0, 17⟩
              children := [{ kind := some .varGlobal, range := some ⟨0, 17⟩ }] } := by
  have hcomments : lineComments "let a // \x22\x7bé\n= 1" = .ok [⟨6, 1, "// \x22\x7bé".toList⟩] := by
    with_unfolding_all rfl
  have hbytes : utf8Bytes "let a        \n= 1".toList =
      blankBytes [⟨6, 7⟩] (utf8Bytes "let a // \x22\x7bé\n= 1".toList) := by
    decide +kernel
  refine ⟨hcomments, (declarationTree_blanked hcomments).2 _ hbytes, ?_⟩
  with_unfolding_all rfl

end DeclLint
