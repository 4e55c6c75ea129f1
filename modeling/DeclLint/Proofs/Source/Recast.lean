import DeclLint.CorrectedText
import DeclLint.Proofs.Source.Shape

/-!
# Texts with `var` for some of their `let`s

Corrections that put `var` in place of `let` change pieces and leave everything
between them alone.  Such a text is told by the offsets of the words changed
(`Piece.recast`), whatever order they were changed in.  Both words have one shape,
so the text is cut into the pieces that were put into it.

* `CorrectedText.spliceAll_recast` — what a list of such corrections makes of a
  text;
* `cut_recast`, `LineComment.ofPieces_recast` — how that text is read;
* `Piece.exists_of_recast_eq` — a `let` that is left was one before, at an offset
  that is not among the changed ones.
-/

namespace DeclLint

namespace Piece

/-- The word `let`. -/
def letWord : Piece := ⟨.word, ['l', 'e', 't']⟩

/-- The word `var`. -/
def varWord : Piece := ⟨.word, ['v', 'a', 'r']⟩

/-- One piece at a character offset, with `var` for `let` if the offset is among
the `starts`. -/
def recastOne (starts : List Nat) (index : Nat) (p : Piece) : Piece :=
  if p = letWord ∧ index ∈ starts then varWord else p

/-- The pieces from a character offset on, with `var` for every `let` at one of
the `starts`. -/
def recast (starts : List Nat) (index : Nat) : List Piece → List Piece
  | [] => []
  | p :: ps => p.recastOne starts index :: recast starts (index + p.text.length) ps

variable {starts : List Nat} {index : Nat}

theorem recastOne_cases (starts : List Nat) (index : Nat) (p : Piece) :
    p.recastOne starts index = p ∨ p = letWord ∧ p.recastOne starts index = varWord := by
  unfold recastOne
  split
  next h => exact Or.inr ⟨h.1, rfl⟩
  next => exact Or.inl rfl

theorem shape_recastOne (starts : List Nat) (index : Nat) (p : Piece) :
    (p.recastOne starts index).shape = p.shape := by
  rcases recastOne_cases starts index p with h | ⟨rfl, h⟩
  · rw [h]
  · rw [h]
    decide

theorem length_eq_of_shape {p q : Piece} (h : p.shape = q.shape) :
    p.text.length = q.text.length := by
  have htext := congrArg (fun r => r.text.length) h
  simpa [shape] using htext

theorem utf8Size_eq_of_shape {p q : Piece} (h : p.shape = q.shape) :
    utf8Size p.text = utf8Size q.text := by
  have htext := congrArg (fun r => utf8Size r.text) h
  simpa [shape] using htext

theorem map_shape_recast (starts : List Nat) (index : Nat) (ps : List Piece) :
    (recast starts index ps).map shape = ps.map shape := by
  induction ps generalizing index with
  | nil => rfl
  | cons p ps ih => simp [recast, ih, shape_recastOne]

theorem recast_append (starts : List Nat) (index : Nat) (ps qs : List Piece) :
    recast starts index (ps ++ qs) =
      recast starts index ps ++ recast starts (index + (joinPieces ps).length) qs := by
  induction ps generalizing index with
  | nil => rfl
  | cons p ps ih => simp [recast, ih, Nat.add_assoc]

theorem recast_none (index : Nat) (ps : List Piece) : recast [] index ps = ps := by
  induction ps generalizing index with
  | nil => rfl
  | cons p ps ih => simp [recast, recastOne, ih]

/-- Pieces behind an offset are not changed by changing what is there. -/
theorem recast_cons_of_lt {start : Nat} (h : start < index) (ps : List Piece) :
    recast (start :: starts) index ps = recast starts index ps := by
  induction ps generalizing index with
  | nil => rfl
  | cons p ps ih =>
      have hne : index ≠ start := by omega
      have htail : recast (start :: starts) (index + p.text.length) ps =
          recast starts (index + p.text.length) ps := ih (by omega)
      simp [recast, recastOne, hne, htail]

/-- Pieces before an offset are not changed by changing what is there. -/
theorem recast_cons_of_le {start : Nat} {ps : List Piece} (hne : ∀ p ∈ ps, p.text ≠ [])
    (h : index + (joinPieces ps).length ≤ start) :
    recast (start :: starts) index ps = recast starts index ps := by
  induction ps generalizing index with
  | nil => rfl
  | cons p ps ih =>
      have hpos : 0 < p.text.length := List.length_pos_iff.mpr (hne p List.mem_cons_self)
      rw [joinPieces_cons, List.length_append] at h
      have hindex : index ≠ start := by omega
      have htail : recast (start :: starts) (index + p.text.length) ps =
          recast starts (index + p.text.length) ps := by
        apply ih ?_ (by omega)
        intro q hq
        exact hne q (List.mem_cons_of_mem _ hq)
      simp [recast, recastOne, hindex, htail]

/-- **What is left was there.**  A `let` among recast pieces was one before, and
its offset is not among those changed. -/
theorem exists_of_recast_eq {ps front' back' : List Piece}
    (h : recast starts index ps = front' ++ letWord :: back') :
    ∃ front back, ps = front ++ letWord :: back ∧ recast starts index front = front' ∧
      index + (joinPieces front).length ∉ starts := by
  induction front' generalizing index ps with
  | nil =>
      cases ps with
      | nil => simp [recast] at h
      | cons p ps =>
          obtain ⟨hhead, -⟩ : p.recastOne starts index = letWord ∧ _ := by
            simpa [recast] using h
          have hp : p = letWord := by
            rcases recastOne_cases starts index p with heq | ⟨heq, -⟩
            · rw [← heq, hhead]
            · exact heq
          refine ⟨[], ps, by rw [hp]; rfl, rfl, fun hmem => ?_⟩
          have hvar : p.recastOne starts index = varWord := if_pos ⟨hp, by simpa using hmem⟩
          rw [hvar] at hhead
          exact absurd hhead (by decide)
  | cons q front' ih =>
      cases ps with
      | nil => simp [recast] at h
      | cons p ps =>
          obtain ⟨hhead, htail⟩ : p.recastOne starts index = q ∧
              recast starts (index + p.text.length) ps = front' ++ letWord :: back' := by
            simpa [recast] using h
          obtain ⟨front, back, rfl, hfront, hnot⟩ := ih htail
          refine ⟨p :: front, back, rfl, by simp [recast, hhead, hfront], ?_⟩
          simpa [Nat.add_assoc] using hnot

end Piece

theorem shapes_joinPieces (ps : List Piece) :
    shapes (joinPieces ps) = joinPieces (ps.map Piece.shape) := by
  induction ps with
  | nil => rfl
  | cons p ps ih => simp [ih, Piece.shape]

/-- A recast text has the shape of the text. -/
@[simp] theorem shapes_joinPieces_recast (starts : List Nat) (index : Nat) (ps : List Piece) :
    shapes (joinPieces (Piece.recast starts index ps)) = shapes (joinPieces ps) := by
  rw [shapes_joinPieces, Piece.map_shape_recast, ← shapes_joinPieces]

theorem length_joinPieces_recast (starts : List Nat) (index : Nat) (ps : List Piece) :
    (joinPieces (Piece.recast starts index ps)).length = (joinPieces ps).length := by
  rw [← length_shapes, shapes_joinPieces_recast, length_shapes]

theorem utf8Size_joinPieces_recast (starts : List Nat) (index : Nat) (ps : List Piece) :
    utf8Size (joinPieces (Piece.recast starts index ps)) = utf8Size (joinPieces ps) := by
  rw [← utf8Size_shapes, shapes_joinPieces_recast, utf8Size_shapes]

/-- No piece of a cut is empty. -/
theorem Cuts.text_ne_nil {offset : Nat} {cs : List Char} {pieces : List Piece}
    (h : Cuts offset cs pieces) : ∀ p ∈ pieces, p.text ≠ [] := by
  induction h with
  | nil => simp
  | cons _ _ ih => simpa using ih

/-- **A recast text is cut into its pieces.** -/
theorem cut_recast {source : List Char} {pieces : List Piece} (h : cut source = .ok pieces)
    (starts : List Nat) :
    cut (joinPieces (Piece.recast starts 0 pieces)) = .ok (Piece.recast starts 0 pieces) := by
  have hcuts := cut_eq_ok_iff.mp h
  have hshape : shapes source = shapes (joinPieces (Piece.recast starts 0 pieces)) := by
    rw [shapes_joinPieces_recast, hcuts.join]
  obtain ⟨pieces', hcuts', hsame⟩ := hcuts.of_shape_eq hshape
  have heq : pieces' = Piece.recast starts 0 pieces := by
    refine Piece.eq_of_shape_eq ?_ hcuts'.join
    rw [hsame, Piece.map_shape_recast]
  rw [heq] at hcuts'
  exact cut_eq_ok_iff.mpr hcuts'

/-- Recasting changes no comment and no line of one. -/
theorem LineComment.ofPiecesFrom_recast (starts : List Nat) (index offset line : Nat)
    (done : List LineComment) (ps : List Piece) :
    ofPiecesFrom offset line done (Piece.recast starts index ps) =
      ofPiecesFrom offset line done ps := by
  induction ps generalizing index offset line done with
  | nil => rfl
  | cons p ps ih =>
      rw [Piece.recast, ofPiecesFrom, ofPiecesFrom, ih]
      rcases Piece.recastOne_cases starts index p with h | ⟨rfl, h⟩
      · rw [h]
      · rw [h]
        rfl

theorem LineComment.ofPieces_recast (starts : List Nat) (ps : List Piece) :
    ofPieces (Piece.recast starts 0 ps) = ofPieces ps :=
  ofPiecesFrom_recast starts 0 0 1 [] ps

/-- A correction puts `var` for a `let` that is a piece of its own. -/
def Correction.Recasts (pieces : List Piece) (c : Correction) : Prop :=
  ∃ front back, pieces = front ++ Piece.letWord :: back ∧
    c.range = ⟨(joinPieces front).length, 3⟩ ∧ c.replacement = "var"

/-- The offsets that corrections begin at. -/
def Correction.starts (corrections : List Correction) : List Nat :=
  corrections.map fun c => c.range.location

/-- A correction of a recast text changes one more word. -/
theorem Text.splice_recast {pieces : List Piece} {starts : List Nat} {c : Correction}
    (hne : ∀ p ∈ pieces, p.text ≠ []) (hc : c.Recasts pieces) :
    Text.splice ⟨joinPieces (Piece.recast starts 0 pieces)⟩ c.range c.replacement =
      ⟨joinPieces (Piece.recast (c.range.location :: starts) 0 pieces)⟩ := by
  obtain ⟨front, back, rfl, hrange, hreplacement⟩ := hc
  have hfront : ∀ p ∈ front, p.text ≠ [] := by
    intro p hp
    exact hne p (List.mem_append_left _ hp)
  have hbefore : Piece.recast ((joinPieces front).length :: starts) 0 front =
      Piece.recast starts 0 front := Piece.recast_cons_of_le hfront (by simp)
  have hbehind : Piece.recast ((joinPieces front).length :: starts)
      ((joinPieces front).length + 3) back =
        Piece.recast starts ((joinPieces front).length + 3) back :=
    Piece.recast_cons_of_lt (by omega) back
  have hword : (Piece.letWord.recastOne starts (joinPieces front).length).text.length = 3 :=
    Piece.length_eq_of_shape (Piece.shape_recastOne starts _ Piece.letWord)
  have hchanged : Piece.letWord.recastOne ((joinPieces front).length :: starts)
      (joinPieces front).length = Piece.varWord := if_pos ⟨rfl, List.mem_cons_self⟩
  have hthree : Piece.letWord.text.length = 3 := rfl
  have hsource : joinPieces (Piece.recast starts 0 (front ++ Piece.letWord :: back)) =
      joinPieces (Piece.recast starts 0 front) ++
        (Piece.letWord.recastOne starts (joinPieces front).length).text ++
        joinPieces (Piece.recast starts ((joinPieces front).length + 3) back) := by
    simp [Piece.recast_append, Piece.recast, hthree]
  have hsplice := Text.splice_of_chars_eq
    (t := ⟨joinPieces (Piece.recast starts 0 (front ++ Piece.letWord :: back))⟩) hsource "var"
  rw [length_joinPieces_recast, hword] at hsplice
  rw [hrange, hreplacement, hsplice]
  simp [Piece.recast_append, Piece.recast, hthree, hbefore, hbehind, hchanged, Piece.varWord]

/-- **Corrections recast a text.**  Whatever their order, corrections that put
`var` for `let` make the text that is recast at their offsets. -/
theorem CorrectedText.spliceAll_recast {pieces : List Piece} {corrections : List Correction}
    (hne : ∀ p ∈ pieces, p.text ≠ []) (h : ∀ c ∈ corrections, c.Recasts pieces) :
    spliceAll ⟨joinPieces pieces⟩ corrections =
      ⟨joinPieces (Piece.recast (Correction.starts corrections) 0 pieces)⟩ := by
  induction corrections with
  | nil => simp [spliceAll, Correction.starts, Piece.recast_none]
  | cons c cs ih =>
      have htail := ih fun d hd => h d (List.mem_cons_of_mem _ hd)
      have hsplice : spliceAll ⟨joinPieces pieces⟩ (c :: cs) =
          (spliceAll ⟨joinPieces pieces⟩ cs).splice c.range c.replacement := rfl
      rw [hsplice, htail]
      exact Text.splice_recast hne (h c List.mem_cons_self)

end DeclLint
