import DeclLint.Source.Piece

/-!
# Block comments nest

Between the mark that opens a block comment and the one that closes it there are block
comments again, and characters with which neither mark begins (`CommentBody`).  The reader
counts the comments that are open.  What it reads closes all of them, so it is the rest of
each, one behind another and the innermost first (`CommentEnds`).

* `closeComment_ends` — what is read closes the comments that are open;
* `CommentBody.closeComment_eq` — the reader passes what is inside of a comment;
* `closeComment_eq_some_iff` — it stops behind the mark that closes the comment.
-/

namespace DeclLint

/-- What stands between the marks of a block comment.  What follows a character is looked at
up to the mark that closes the comment. -/
inductive CommentBody : List Char → Prop
  | nil : CommentBody []
  | char {c : Char} {cs : List Char} (hopens : ¬ ['/', '*'] <+: c :: (cs ++ ['*', '/']))
      (hcloses : ¬ ['*', '/'] <+: c :: (cs ++ ['*', '/'])) (tail : CommentBody cs) :
      CommentBody (c :: cs)
  | comment {inner cs : List Char} (hinner : CommentBody inner) (tail : CommentBody cs) :
      CommentBody ('/' :: '*' :: (inner ++ '*' :: '/' :: cs))

/-- A block comment: two marks and what stands between them. -/
def NestedComment (text : List Char) : Prop :=
  ∃ body, CommentBody body ∧ text = '/' :: '*' :: (body ++ ['*', '/'])

/-- What closes a comment and the comments around it, `depth` in number. -/
inductive CommentEnds : Nat → List Char → Prop
  | outermost {body : List Char} (hbody : CommentBody body) : CommentEnds 0 (body ++ ['*', '/'])
  | inside {depth : Nat} {body more : List Char} (hbody : CommentBody body)
      (tail : CommentEnds depth more) : CommentEnds (depth + 1) (body ++ '*' :: '/' :: more)

namespace CommentEnds

variable {depth : Nat} {text inner : List Char} {c : Char}

/-- One more character inside of the innermost comment. -/
theorem char (h : CommentEnds depth text) (hopens : ¬ ['/', '*'] <+: c :: text)
    (hcloses : ¬ ['*', '/'] <+: c :: text) : CommentEnds depth (c :: text) := by
  have hshorter : ∀ body more : List Char,
      c :: (body ++ ['*', '/']) <+: c :: (body ++ '*' :: '/' :: more) :=
    fun body more => ⟨more, by simp⟩
  cases h with
  | @outermost body hbody => exact .outermost (.char hopens hcloses hbody)
  | @inside _ body more hbody tail =>
      refine @inside _ (c :: body) more ?_ tail
      apply CommentBody.char ?_ ?_ hbody
      · exact fun hmarks => hopens (hmarks.trans (hshorter body more))
      · exact fun hmarks => hcloses (hmarks.trans (hshorter body more))

/-- One more comment inside of the innermost comment. -/
theorem comment (hinner : CommentBody inner) (h : CommentEnds depth text) :
    CommentEnds depth ('/' :: '*' :: (inner ++ '*' :: '/' :: text)) := by
  cases h with
  | @outermost body hbody =>
      have houtermost := outermost (.comment hinner hbody)
      simpa using houtermost
  | @inside _ body more hbody tail =>
      have hinside := inside (.comment hinner hbody) tail
      simpa using hinside

end CommentEnds

/-- **What the reader reads** closes the comments that are open. -/
theorem closeComment_ends {depth : Nat} {taken cs text rest : List Char}
    (h : closeComment depth taken cs = some (text, rest)) :
    ∃ read, text = taken.reverse ++ read ∧ CommentEnds depth read := by
  fun_induction closeComment depth taken cs with
  | case1 depth taken cs ih =>
      obtain ⟨read, htext, hread⟩ := ih h
      cases hread with
      | @inside _ body more hbody tail =>
          exact ⟨'/' :: '*' :: (body ++ '*' :: '/' :: more), by simp [htext], tail.comment hbody⟩
  | case2 taken cs =>
      obtain ⟨rfl, rfl⟩ : _ = text ∧ cs = rest := by simpa using h
      exact ⟨['*', '/'], by simp, .outermost .nil⟩
  | case3 depth taken cs ih =>
      obtain ⟨read, htext, hread⟩ := ih h
      exact ⟨'*' :: '/' :: read, by simp [htext], .inside .nil hread⟩
  | case4 depth taken c cs hopens hcloses hleaves ih =>
      obtain ⟨read, htext, hread⟩ := ih h
      have hsplit := closeComment_split h
      rw [htext, List.append_assoc] at hsplit
      obtain rfl : read ++ rest = cs := List.append_cancel_left hsplit
      refine ⟨c :: read, by simp [htext], hread.char ?_ ?_⟩
      · rintro ⟨more, hmore⟩
        obtain ⟨rfl, rfl⟩ := List.cons.inj hmore
        exact hopens _ rfl rfl
      · rintro ⟨more, hmore⟩
        obtain ⟨rfl, rfl⟩ := List.cons.inj hmore
        cases depth with
        | zero => exact hcloses _ rfl rfl rfl
        | succ depth => exact hleaves depth _ rfl rfl rfl
  | case5 => simp at h

/-- **The reader passes** what is inside of a comment. -/
theorem CommentBody.closeComment_eq {body : List Char} (h : CommentBody body) (depth : Nat)
    (taken cs : List Char) :
    closeComment depth taken (body ++ '*' :: '/' :: cs) =
      closeComment depth (body.reverse ++ taken) ('*' :: '/' :: cs) := by
  induction h generalizing depth taken cs with
  | nil => rfl
  | @char c body hopens hcloses tail ih =>
      have hlonger : c :: (body ++ ['*', '/']) <+: c :: (body ++ '*' :: '/' :: cs) :=
        ⟨cs, by simp⟩
      have hnext : ∀ a b more, c = a → body ++ '*' :: '/' :: cs = b :: more →
          [a, b] <+: c :: (body ++ ['*', '/']) := by
        intro a b more hc hmore
        apply List.prefix_of_prefix_length_le ?_ hlonger (by simp)
        exact ⟨more, by rw [hmore, hc]; rfl⟩
      rw [List.cons_append, closeComment, ih]
      · simp
      · intro more hc hmore
        exact hopens (hnext _ _ more hc hmore)
      · intro more _ hc hmore
        exact hcloses (hnext _ _ more hc hmore)
      · intro _ more _ hc hmore
        exact hcloses (hnext _ _ more hc hmore)
  | @comment inner body hinner tail ihinner ih =>
      have hentered := ihinner (depth + 1) ('*' :: '/' :: taken) (body ++ '*' :: '/' :: cs)
      have hbehind := ih depth ('/' :: '*' :: (inner.reverse ++ '*' :: '/' :: taken)) cs
      rw [closeComment] at hentered
      rw [List.cons_append, List.cons_append, closeComment, List.append_assoc, List.cons_append,
        List.cons_append, hentered, hbehind]
      simp

/-- **Comments** are read from the mark that opens them to the mark that closes them. -/
theorem closeComment_eq_some_iff {cs text rest : List Char} :
    closeComment 0 [] cs = some (text, rest) ↔
      cs = text ++ rest ∧ ∃ body, CommentBody body ∧ text = body ++ ['*', '/'] := by
  constructor
  · intro h
    have hsplit := closeComment_split h
    obtain ⟨read, rfl, hread⟩ := closeComment_ends h
    cases hread with
    | outermost hbody => exact ⟨hsplit.symm, _, hbody, rfl⟩
  · rintro ⟨rfl, body, hbody, rfl⟩
    have hpassed := hbody.closeComment_eq 0 [] rest
    rw [closeComment] at hpassed
    rw [List.append_assoc, List.cons_append, List.singleton_append, hpassed]
    simp

end DeclLint
