import DeclLint.Proofs.Outline.Derivation
import DeclLint.Proofs.Outline.Relocation
import DeclLint.Proofs.Source.MovedToken

/-!
# The tree of a text with carriage returns

A text with carriage returns before its line breaks has the tree of the text without them,
moved (`declarationTree_withCrlf`); and it has a tree only if the text without them has one
(`declarationTree_withCrlf_cases`).
-/

namespace DeclLint

/-- Carriage returns move tokens and change none. -/
theorem Token.moves_moved (source : List Char) :
    Moves (moved (crlfOffset source)) (crlfOffset source) := by
  constructor
  case respells =>
    intro t
    left
    unfold moved
    split
    next h => exact h.symm
    next => rfl
  case zero_eq => exact crlfOffset_of_append (List.nil_append source).symm
  all_goals
    intro t ht
    simp [moved, ht]

variable {source : String}

/-- The tokens of both texts hold the same declarations, or neither text is read. -/
theorem Outline.ofTokens_crlf {pieces : List Piece} (h : cut source.toList = .ok pieces)
    (hfree : NoEscapedBreak source.toList) :
    Agree (crlfOffset source.toList)
      (List.Forall₂ (Declaration.Relocated (crlfOffset source.toList)))
      (ofTokens (Token.ofPieces pieces)) (ofTokens (Token.ofPieces (Piece.crlfAll pieces))) := by
  rw [Token.ofPieces_crlf h hfree]
  exact ofTokens_relocated (Token.moves_moved source.toList) _

/-- **The tree of a text with carriage returns.** -/
theorem declarationTree_withCrlf {root : Declaration} (h : declarationTree source = .ok root)
    (hfree : NoEscapedBreak source.toList) :
    ∃ root', declarationTree (withCrlf source) = .ok root' ∧
      root.Relocated (crlfOffset source.toList) root' := by
  obtain ⟨pieces, hcut, hrest⟩ := exists_of_bind_eq_ok h
  obtain ⟨children, htokens, hroot⟩ := exists_of_bind_eq_ok hrest
  obtain rfl := Except.ok.inj hroot
  have hcut' : cut (withCrlf source).toList = .ok (Piece.crlfAll pieces) := by
    rw [toList_withCrlf]
    exact cut_crlf hcut hfree
  have hboth := Outline.ofTokens_crlf hcut hfree
  rw [htokens] at hboth
  rw [declarationTree_of_cut hcut']
  cases htokens' : Outline.ofTokens (Token.ofPieces (Piece.crlfAll pieces)) with
  | error e => simp [htokens', Agree] at hboth
  | ok children' =>
      rw [htokens'] at hboth
      refine ⟨_, rfl, ?_⟩
      have hstart : crlfOffset source.toList 0 = 0 := (Token.moves_moved source.toList).zero_eq
      have hstop : crlfOffset source.toList source.utf8ByteSize =
          (withCrlf source).utf8ByteSize := by
        have hall := crlfOffset_of_append (List.append_nil source.toList).symm
        rwa [← utf8ByteSize_ofList, ← utf8ByteSize_ofList, String.ofList_toList] at hall
      have hmoved := @Declaration.Relocated.intro (crlfOffset source.toList) none 0
        source.utf8ByteSize none none children children' hboth
      rw [hstart, hstop] at hmoved
      exact hmoved

/-- **A text without carriage returns has a tree** if the text with them has one. -/
theorem exists_declarationTree_of_withCrlf {root' : Declaration}
    (h : declarationTree (withCrlf source) = .ok root')
    (hfree : NoEscapedBreak source.toList) : ∃ root, declarationTree source = .ok root := by
  obtain ⟨pieces', hcut', htokens', -⟩ := exists_cut_of_declarationTree h
  rw [toList_withCrlf] at hcut'
  obtain ⟨pieces, hcut⟩ := exists_cut_of_crlf hcut' hfree
  obtain rfl := Except.ok.inj (hcut'.symm.trans (cut_crlf hcut hfree))
  have hboth := Outline.ofTokens_crlf hcut hfree
  rw [htokens'] at hboth
  rw [declarationTree_of_cut hcut]
  cases htokens : Outline.ofTokens (Token.ofPieces pieces) with
  | error e => simp [htokens, Agree] at hboth
  | ok children => exact ⟨_, rfl⟩

/-- Both texts have a tree, or neither has. -/
theorem declarationTree_withCrlf_cases (hfree : NoEscapedBreak source.toList) :
    (∃ root root', declarationTree source = .ok root ∧
        declarationTree (withCrlf source) = .ok root' ∧
          root.Relocated (crlfOffset source.toList) root') ∨
      ∃ e e', declarationTree source = .error e ∧ declarationTree (withCrlf source) = .error e' := by
  cases h : declarationTree source with
  | ok root =>
      obtain ⟨root', h', hmoved⟩ := declarationTree_withCrlf h hfree
      exact .inl ⟨root, root', rfl, h', hmoved⟩
  | error e =>
      cases h' : declarationTree (withCrlf source) with
      | error e' => exact .inr ⟨e, e', rfl, rfl⟩
      | ok root' =>
          obtain ⟨root, hroot⟩ := exists_declarationTree_of_withCrlf h' hfree
          simp [h] at hroot

end DeclLint
