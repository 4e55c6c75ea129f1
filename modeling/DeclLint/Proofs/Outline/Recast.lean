import DeclLint.Proofs.Outline.Derivation
import DeclLint.Proofs.Outline.Relocation
import DeclLint.Proofs.Source.Recast
import DeclLint.Proofs.Source.TokenLayout

/-!
# The outline does not tell `let` from `var`

Wherever the outline reader looks at a word, ahead, behind or at the word itself,
it treats `let` and `var` alike.  So to put `var` for every `let` among the tokens
(`Token.recast`) is a way to put them down that it does not notice, and since they stay
where they are it finds the same declarations.

* `Outline.ofTokens_eq_of_recasts_eq` — tokens that differ in `let` and `var` only;
* `Token.ofPieces_recast` — recast pieces have the same tokens, up to `let` and
  `var`;
* `declarationTree_recast` — a recast text has the same tree.
-/

namespace DeclLint

namespace Token

/-- The token, with `var` for `let`. -/
def recast (t : Token) : Token :=
  if t.lexeme = .word "let" then { t with lexeme := .word "var" } else t

/-- `let` and `var` take up the same place. -/
theorem moves_recast : Moves recast id := by
  have hcases : ∀ t : Token, t.recast = t ∨
      t.lexeme = .word "let" ∧ t.recast = ⟨.word "var", t.start, t.stop⟩ := by
    intro t
    unfold recast
    split
    next h => exact .inr ⟨h, rfl⟩
    next => exact .inl rfl
  constructor
  case zero_eq => rfl
  case respells =>
    intro t
    rcases hcases t with h | ⟨hlet, h⟩
    · rw [h]
      exact .inl rfl
    · rw [h]
      exact .inr ⟨hlet, rfl⟩
  all_goals
    intro t _
    rcases hcases t with h | ⟨-, h⟩ <;> rw [h] <;> rfl

end Token

namespace Outline

/-- Tokens, with `var` for `let`. -/
def recasts (ts : List Token) : List Token := ts.map Token.recast

/-- Tokens that differ in `let` and `var` only hold the same declarations. -/
theorem ofTokens_eq_of_recasts_eq {ts us : List Token} (h : recasts ts = recasts us) :
    ofTokens ts = ofTokens us := by
  have hall : ∀ ts, ofTokens (recasts ts) = ofTokens ts := ofTokens_of_stay Token.moves_recast
  rw [← hall ts, h, hall us]

end Outline

namespace Token

/-- Of the characters around a mark only the shapes matter. -/
theorem lexemeOfMark_shape (before : Option Char) (c : Char) (after : Option Char) :
    lexemeOfMark (before.map shape) c (after.map shape) = lexemeOfMark before c after := by
  have hafter : after.map shape = some '=' ↔ after = some '=' := by
    cases after with
    | none => simp
    | some d => simp [shape_eq_iff]
  have hcontains : ∀ (marks : List Char), (∀ d ∈ marks, d.isAlpha = false) →
      (before.map shape).any marks.contains = before.any marks.contains := by
    intro marks hmarks
    cases before with
    | none => rfl
    | some d =>
        have hmem : shape d ∈ marks ↔ d ∈ marks := by
          constructor
          · intro h
            have heq : d = shape d := (shape_eq_iff (hmarks _ h)).mp rfl
            exact heq ▸ h
          · intro h
            rwa [shape_of_isAlpha_false (hmarks d h)]
        simpa using hmem
  have hcompares := hcontains comparisonStarts (by simp [comparisonStarts])
  have hblank := hcontains [' ', '\t', '?'] (by simp)
  unfold lexemeOfMark
  simp only [hcompares, hblank, ne_eq, hafter]

/-- A piece and the recast one bear the same token, up to `let` and `var`. -/
theorem ofPiece_recastOne {before before' after after' : Option Char}
    (hbefore : before'.map shape = before.map shape)
    (hafter : after'.map shape = after.map shape) (starts : List Nat) (index offset : Nat)
    (p : Piece) :
    Outline.recasts (ofPiece offset before' (p.recastOne starts index) after') =
      Outline.recasts (ofPiece offset before p after) := by
  have hmark : ∀ c, lexemeOfMark before' c after' = lexemeOfMark before c after := by
    intro c
    rw [← lexemeOfMark_shape before', hbefore, hafter, lexemeOfMark_shape]
  rcases Piece.recastOne_cases starts index p with h | ⟨rfl, h⟩
  · rw [h]
    unfold ofPiece
    simp only [hmark]
  · rw [h]
    rfl

/-- Tokens are told by shapes of characters, so those of a recast text differ by its words
only. -/
theorem ofPiecesFrom_recast {before before' : Option Char}
    (hbefore : before'.map shape = before.map shape) (starts : List Nat) (index offset : Nat)
    (ps : List Piece) :
    Outline.recasts (ofPiecesFrom offset before' [] (Piece.recast starts index ps)) =
      Outline.recasts (ofPiecesFrom offset before [] ps) := by
  induction ps generalizing index offset before before' with
  | nil => rfl
  | cons p ps ih =>
      have hshape := Piece.shape_recastOne starts index p
      have hsize := Piece.utf8Size_eq_of_shape hshape
      have htexts : shapes (p.recastOne starts index).text = shapes p.text :=
        congrArg Piece.text hshape
      have hlast : (p.recastOne starts index).text.getLast?.map shape =
          p.text.getLast?.map shape := by
        have hgetLast := congrArg List.getLast? htexts
        simpa [shapes] using hgetLast
      have hafter : ((Piece.recast starts (index + p.text.length) ps).head?.bind
          fun next => next.text.head?).map shape =
            (ps.head?.bind fun next => next.text.head?).map shape := by
        cases ps with
        | nil => rfl
        | cons q qs =>
            have hq := congrArg Piece.text
              (Piece.shape_recastOne starts (index + p.text.length) q)
            have hhead := congrArg List.head? hq
            simpa [Piece.recast, Piece.shape, shapes] using hhead
      have hfirst := ofPiece_recastOne hbefore hafter starts index offset p
      have hrest := ih hlast (index + p.text.length) (offset + utf8Size p.text)
      rw [Piece.recast, ofPiecesFrom_cons, ofPiecesFrom_cons, hsize]
      unfold Outline.recasts at hfirst hrest ⊢
      rw [List.map_append, List.map_append, hfirst, hrest]

/-- **Recast pieces have recast tokens.** -/
theorem ofPieces_recast (starts : List Nat) (ps : List Piece) :
    Outline.recasts (ofPieces (Piece.recast starts 0 ps)) = Outline.recasts (ofPieces ps) :=
  ofPiecesFrom_recast rfl starts 0 0 ps

end Token

/-- **A recast text has the same tree.** -/
theorem declarationTree_recast {source : String} {pieces : List Piece}
    (h : cut source.toList = .ok pieces) (starts : List Nat) :
    declarationTree (String.ofList (joinPieces (Piece.recast starts 0 pieces))) =
      declarationTree source := by
  have hcut := cut_recast h starts
  have hsize : (String.ofList (joinPieces (Piece.recast starts 0 pieces))).utf8ByteSize =
      source.utf8ByteSize := by
    rw [utf8ByteSize_ofList, utf8Size_joinPieces_recast, cut_join h, ← utf8ByteSize_ofList,
      String.ofList_toList]
  have htokens := Outline.ofTokens_eq_of_recasts_eq (Token.ofPieces_recast starts pieces)
  have hlist : (String.ofList (joinPieces (Piece.recast starts 0 pieces))).toList =
      joinPieces (Piece.recast starts 0 pieces) := String.toList_ofList
  rw [declarationTree_of_cut (hlist ▸ hcut), declarationTree_of_cut h, htokens, hsize]

/-- A recast text has the same line comments. -/
theorem lineComments_recast {source : String} {pieces : List Piece}
    (h : cut source.toList = .ok pieces) (starts : List Nat) :
    lineComments (String.ofList (joinPieces (Piece.recast starts 0 pieces))) =
      lineComments source := by
  unfold lineComments
  rw [String.toList_ofList, cut_recast h starts, h]
  exact congrArg Except.ok (LineComment.ofPieces_recast starts pieces)

end DeclLint
