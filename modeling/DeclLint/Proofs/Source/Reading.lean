import DeclLint.Proofs.Source.Cutting

/-!
# How far a text is read

A cut is made piece by piece, so there is a place that it has reached after each of them
(`Reads`).  From there on it goes as if it had begun there, with the pieces already done;
and a text that is not cut is refused at such a place, by what the next piece begins with.

* `Reads.cutFrom_eq` — cutting goes on where it has come to;
* `cut_eq_error_iff` — where a text is refused;
* `Token.ofSource_eq_ok_iff` — the tokens and line comments of a text are those of its pieces.
-/

namespace DeclLint

/-- The characters at an offset begin with some pieces, and the rest is still to be cut. -/
inductive Reads : Nat → List Char → List Piece → List Char → Prop
  | nil (offset : Nat) (cs : List Char) : Reads offset cs [] cs
  | cons {offset : Nat} {c : Char} {cs text behind rest : List Char} {kind : PieceKind}
      {pieces : List Piece} (hlead : leading offset c cs = .ok (kind, text, behind))
      (tail : Reads (offset + c.utf8Size + utf8Size text) behind pieces rest) :
      Reads offset (c :: cs) (⟨kind, c :: text⟩ :: pieces) rest

namespace Reads

variable {offset : Nat} {cs rest : List Char} {pieces : List Piece}

/-- What was read and what is left make up what there was. -/
theorem join (h : Reads offset cs pieces rest) : joinPieces pieces ++ rest = cs := by
  induction h with
  | nil => rfl
  | cons hlead _ ih =>
      rw [joinPieces_cons, List.append_assoc, ih, List.cons_append, leading_split hlead]

/-- **Cutting goes on** where it has come to. -/
theorem cutFrom_eq (h : Reads offset cs pieces rest) (done : List Piece) :
    cutFrom offset done cs =
      cutFrom (offset + utf8Size (joinPieces pieces)) (pieces.reverse ++ done) rest := by
  induction h generalizing done with
  | nil => simp
  | @cons offset c cs text behind rest kind pieces hlead tail ih =>
      have hrest := ih (⟨kind, c :: text⟩ :: done)
      rw [cutFrom]
      split
      next e herror => simp [hlead] at herror
      next kind' text' behind' hlead' =>
        obtain ⟨rfl, rfl, rfl⟩ : kind = kind' ∧ text = text' ∧ behind = behind' := by
          simpa [hlead] using hlead'
        rw [hrest, joinPieces_cons, utf8Size_append, utf8Size_cons, List.reverse_cons,
          List.append_assoc]
        simp only [List.singleton_append, Nat.add_assoc]

end Reads

/-- A text that is refused was read up to the piece that is refused. -/
theorem cutFrom_eq_error {offset : Nat} {done : List Piece} {cs : List Char} {e : ParseError}
    (h : cutFrom offset done cs = .error e) :
    ∃ pieces c rest, Reads offset cs pieces (c :: rest) ∧
      leading (offset + utf8Size (joinPieces pieces)) c rest = .error e := by
  fun_induction cutFrom offset done cs with
  | case1 => simp at h
  | case2 offset done c cs e' hlead =>
      obtain rfl : e' = e := Except.error.inj h
      exact ⟨[], c, cs, .nil _ _, hlead⟩
  | case3 offset done c cs kind text rest hlead _ ih =>
      obtain ⟨pieces, d, more, hreads, hfault⟩ := ih h
      refine ⟨⟨kind, c :: text⟩ :: pieces, d, more, .cons hlead hreads, ?_⟩
      rw [joinPieces_cons, utf8Size_append, utf8Size_cons, ← Nat.add_assoc, ← Nat.add_assoc]
      exact hfault

/-- **Where a text is refused**: behind some pieces, by what the next piece begins with. -/
theorem cut_eq_error_iff {source : List Char} {e : ParseError} :
    cut source = .error e ↔
      ∃ pieces c rest, Reads 0 source pieces (c :: rest) ∧
        leading (utf8Size (joinPieces pieces)) c rest = .error e := by
  constructor
  · intro h
    have hfault := cutFrom_eq_error h
    simpa using hfault
  · rintro ⟨pieces, c, rest, hreads, hlead⟩
    rw [cut, hreads.cutFrom_eq, Nat.zero_add, cutFrom]
    split
    next e' herror => rw [Except.error.inj (herror.symm.trans hlead)]
    next hok => simp [hlead] at hok

namespace Token

theorem ofSource_eq_ok_iff {source : String} {tokens : List Token} {comments : List LineComment} :
    ofSource source = .ok (tokens, comments) ↔ ∃ pieces, cut source.toList = .ok pieces ∧
      ofPieces pieces = tokens ∧ LineComment.ofPieces pieces = comments := by
  unfold ofSource
  cases cut source.toList <;> simp [Except.map]

theorem ofSource_eq_error_iff {source : String} {e : ParseError} :
    ofSource source = .error e ↔ cut source.toList = .error e := by
  unfold ofSource
  cases cut source.toList <;> simp [Except.map]

end Token

end DeclLint
