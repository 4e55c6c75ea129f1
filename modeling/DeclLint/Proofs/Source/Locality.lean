import DeclLint.Proofs.Source.NestedComment
import DeclLint.Proofs.Source.QuotedLiteral

/-!
# What is behind a piece

A literal or a comment is read up to where it is closed, and no further, so whatever follows
it could be something else.  Only a mark is told by the character behind it, a word and the
delimiter of a literal by where they end.

So a text may be changed behind a piece, as long as nobody looks for the characters where
the change begins (`Alike`): the piece may be followed by a blank in place of a slash
(`Blanked`), or there may be more behind its line.

* `leadingLiteral_local` — literals;
* `leading_of_alike`, `leading_local` — one piece.
-/

namespace DeclLint

/-- Characters that no reader looks for behind a piece. -/
def Unsought (c : Char) : Prop := c ∉ ['"', '#', '*', '='] ∧ isWordChar c = false

/-- Two texts that agree, or do up to a place where each has a character that nobody looks
for.  A slash may be there in the first text only. -/
def Alike (cs cs' : List Char) : Prop :=
  cs = cs' ∨ ∃ front d d' more more', cs = front ++ d :: more ∧ cs' = front ++ d' :: more' ∧
    Unsought d ∧ Unsought d' ∧ d' ≠ '/'

namespace Alike

variable {cs cs' : List Char}

/-- The next character is the same if anybody looks for it. -/
theorem head? (h : Alike cs cs') {c : Char} (hc : ¬ Unsought c) :
    cs'.head? = some c ↔ cs.head? = some c := by
  rcases h with rfl | ⟨front, d, d', more, more', rfl, rfl, hd, hd', -⟩
  · exact Iff.rfl
  · cases front with
    | nil =>
        have hne : d ≠ c := fun heq => hc (heq ▸ hd)
        have hne' : d' ≠ c := fun heq => hc (heq ▸ hd')
        simp [hne, hne']
    | cons e front => exact Iff.rfl

/-- There may be a slash next only where there was one. -/
theorem head?_slash (h : Alike cs cs') (hslash : cs'.head? = some '/') :
    cs.head? = some '/' := by
  rcases h with rfl | ⟨front, d, d', more, more', rfl, rfl, -, -, hd'⟩
  · exact hslash
  · cases front with
    | nil => exact absurd (Option.some.inj hslash) hd'
    | cons e front => exact hslash

/-- Behind a character that somebody looks for, the texts are alike again. -/
theorem tail {c : Char} (h : Alike (c :: cs) (c :: cs')) (hc : ¬ Unsought c) : Alike cs cs' := by
  rcases h with heq | ⟨front, d, d', more, more', hcs, hcs', hd, hd', hslash⟩
  · exact .inl (List.cons.inj heq).2
  · cases front with
    | nil => exact absurd ((List.cons.inj hcs).1 ▸ hd) hc
    | cons e front =>
        exact .inr ⟨front, d, d', more, more', (List.cons.inj hcs).2, (List.cons.inj hcs').2,
          hd, hd', hslash⟩

/-- So they are behind some of them. -/
theorem of_append {xs : List Char} (hxs : ∀ c ∈ xs, ¬ Unsought c)
    (h : Alike (xs ++ cs) (xs ++ cs')) : Alike cs cs' := by
  induction xs with
  | nil => exact h
  | cons c xs ih =>
      obtain ⟨hc, hxs⟩ := List.forall_mem_cons.mp hxs
      exact ih hxs (h.tail hc)

variable {p : Char → Bool}

/-- A run of characters that somebody looks for is as long as it was. -/
theorem takeWhile_eq (h : Alike cs cs') (hp : ∀ c, Unsought c → p c = false) :
    cs'.takeWhile p = cs.takeWhile p := by
  rcases h with rfl | ⟨front, d, d', more, more', rfl, rfl, hd, hd', -⟩
  · rfl
  · induction front with
    | nil => simp [hp d hd, hp d' hd']
    | cons e front ih => simp only [List.cons_append, List.takeWhile_cons, ih]

/-- What follows a run that somebody looks for is alike. -/
theorem dropWhile (h : Alike cs cs') (hp : ∀ c, Unsought c → p c = false) :
    Alike (cs.dropWhile p) (cs'.dropWhile p) := by
  rcases h with rfl | ⟨front, d, d', more, more', rfl, rfl, hd, hd', hslash⟩
  · exact .inl rfl
  · induction front with
    | nil =>
        exact .inr ⟨[], d, d', more, more', by simp [hp d hd], by simp [hp d' hd'], hd, hd', hslash⟩
    | cons e front ih =>
        simp only [List.cons_append, List.dropWhile_cons]
        split
        · exact ih
        · exact .inr ⟨e :: front, d, d', more, more', rfl, rfl, hd, hd', hslash⟩

end Alike

/-- **Behind a literal** there may be anything, as long as the quotes that open it are as
many. -/
theorem leadingLiteral_local {offset hashes : Nat} {text rest rest' : List Char}
    (h : leadingLiteral offset hashes (text ++ rest) = .ok (text, rest))
    (hall : Alike (text ++ rest) (text ++ rest')) :
    leadingLiteral offset hashes (text ++ rest') = .ok (text, rest') := by
  by_cases hquotes : ['"', '"'] <+: text ++ rest
  · obtain ⟨more, hmore⟩ := hquotes
    rw [← hmore] at h
    obtain ⟨read, rfl, -, hread⟩ := leadingLiteral_multiline_eq_ok_iff.mp h
    exact leadingLiteral_multiline_eq_ok_iff.mpr ⟨read, rfl, rfl, hread⟩
  · obtain ⟨-, hread⟩ := (leadingLiteral_eq_ok_iff hquotes).mp h
    have hquotes' : ¬ ['"', '"'] <+: text ++ rest' := by
      rintro ⟨more, hmore⟩
      cases text with
      | nil => simpa [Enclosure.width] using hread.width_le
      | cons c ys =>
          obtain ⟨rfl, hys⟩ := List.cons.inj hmore
          have hquote : ¬ Unsought '"' := by simp [Unsought]
          have htail : Alike (ys ++ rest) (ys ++ rest') := hall.tail hquote
          have hnext : (ys ++ rest').head? = some '"' := by
            rw [show ys ++ rest' = _ from hys.symm]
            rfl
          rw [htail.head? hquote] at hnext
          obtain ⟨more', hmore'⟩ := List.head?_eq_some_iff.mp hnext
          exact hquotes ⟨more', congrArg ('"' :: ·) hmore'.symm⟩
    exact (leadingLiteral_eq_ok_iff hquotes').mpr ⟨rfl, hread⟩

/-- **Behind a literal** and the `#` before it. -/
theorem leading_literal_of_alike {offset : Nat} {c : Char} {text rest rest' : List Char}
    (h : leading offset c (text ++ rest) = .ok (.literal, text, rest))
    (hall : Alike (text ++ rest) (text ++ rest')) :
    leading offset c (text ++ rest') = .ok (.literal, text, rest') := by
  obtain ⟨hashes, read, htext, hread⟩ := exists_quoted_of_leading h
  have hmore : c :: (text ++ rest') = List.replicate hashes '#' ++ '"' :: (read ++ rest') := by
    rw [← List.cons_append, htext, List.append_assoc, List.cons_append]
  have hbehind : Alike (read ++ rest) (read ++ rest') := by
    cases hashes with
    | zero =>
        obtain ⟨-, rfl⟩ : c = '"' ∧ text = read := by simpa using htext
        exact hall
    | succ hashes =>
        obtain ⟨-, rfl⟩ := List.cons.inj htext
        have hsought : ∀ c ∈ List.replicate hashes '#' ++ ['"'], ¬ Unsought c := by
          intro c hc
          have hmarks : c = '#' ∨ c = '"' := by
            simp only [List.mem_append, List.mem_replicate, List.mem_singleton] at hc
            exact hc.imp_left fun hmem => hmem.2
          rcases hmarks with rfl | rfl <;> simp [Unsought]
        exact Alike.of_append hsought (by simpa using hall)
  rw [leading_of_hashes hmore, leadingLiteral_local hread hbehind, Except.map, ← htext]
  rfl

/-- **Behind a piece** that is no line comment there may be anything that looks alike. -/
theorem leading_of_alike {offset : Nat} {c : Char} {text rest rest' : List Char}
    {kind : PieceKind} (h : leading offset c (text ++ rest) = .ok (kind, text, rest))
    (hcomment : kind ≠ .lineComment) (hall : Alike (text ++ rest) (text ++ rest')) :
    leading offset c (text ++ rest') = .ok (kind, text, rest') := by
  by_cases hliteral : kind = .literal
  · subst hliteral
    exact leading_literal_of_alike h hall
  have hhash : ∀ c, Unsought c → decide (c = '#') = false := by
    intro c hc
    exact decide_eq_false fun heq => hc.1 (by simp [heq])
  have hhashes := hall.dropWhile hhash
  have hslash : (text ++ rest').head? = some '/' → (text ++ rest).head? = some '/' :=
    hall.head?_slash
  have hstar : (text ++ rest').head? = some '*' ↔ (text ++ rest).head? = some '*' :=
    hall.head? (by simp [Unsought])
  have hquoted : ((text ++ rest').dropWhile (· = '#')).head? = some '"' ↔
      ((text ++ rest).dropWhile (· = '#')).head? = some '"' :=
    hhashes.head? (by simp [Unsought])
  unfold leading at h
  split at h
  next hbreak =>
    obtain ⟨rfl, rfl⟩ : .lineBreak = kind ∧ text = [] := by simpa using h
    rw [leading, if_pos hbreak, List.nil_append]
  split at h
  next hbreak hblank =>
    obtain ⟨rfl, rfl⟩ : .blank = kind ∧ text = [] := by simpa using h
    rw [leading, if_neg hbreak, if_pos hblank, List.nil_append]
  split at h
  next =>
    obtain ⟨rfl, -⟩ : .lineComment = kind ∧ _ := by simpa using h
    exact absurd rfl hcomment
  next hbreak hblank hline =>
  have hline' : ¬ (c = '/' ∧ (text ++ rest').head? = some '/') :=
    fun hmarks => hline ⟨hmarks.1, hslash hmarks.2⟩
  split at h
  next hblock =>
    split at h
    next read left hclose =>
      obtain ⟨rfl, rfl, rfl⟩ : .blockComment = kind ∧ '*' :: read = text ∧ left = rest := by
        simpa using h
      have hclose' : closeComment 0 [] (read ++ rest') = some (read, rest') :=
        closeComment_eq_some_iff.mpr ⟨rfl, (closeComment_eq_some_iff.mp hclose).2⟩
      rw [leading, if_neg hbreak, if_neg hblank, if_neg hline',
        if_pos ⟨hblock.1, hstar.mpr hblock.2⟩, List.cons_append, List.tail_cons, hclose']
    next => simp at h
  next hblock =>
  have hblock' : ¬ (c = '/' ∧ (text ++ rest').head? = some '*') :=
    fun hmarks => hblock ⟨hmarks.1, hstar.mp hmarks.2⟩
  split at h
  next =>
    obtain ⟨read, -, hsplit⟩ := exists_of_map_eq_ok h
    obtain ⟨rfl, -⟩ : .literal = kind ∧ _ := by simpa using hsplit
    exact absurd rfl hliteral
  next hquote =>
  split at h
  next =>
    obtain ⟨read, -, hsplit⟩ := exists_of_map_eq_ok h
    obtain ⟨rfl, -⟩ : .literal = kind ∧ _ := by simpa using hsplit
    exact absurd rfl hliteral
  next hraw =>
  have hraw' : ¬ (c = '#' ∧ ((text ++ rest').dropWhile (· = '#')).head? = some '"') :=
    fun hmarks => hraw ⟨hmarks.1, hquoted.mp hmarks.2⟩
  split at h
  next hword =>
    obtain ⟨rfl, htake, -⟩ : .word = kind ∧ (text ++ rest).takeWhile isWordChar = text ∧
      (text ++ rest).dropWhile isWordChar = rest := by simpa using h
    have htake' : (text ++ rest').takeWhile isWordChar = text :=
      (hall.takeWhile_eq fun c hc => hc.2).trans htake
    have hdrop : (text ++ rest').dropWhile isWordChar = rest' := by
      have hsplit := List.takeWhile_append_dropWhile (p := isWordChar) (l := text ++ rest')
      rw [htake'] at hsplit
      exact List.append_cancel_left hsplit
    rw [leading, if_neg hbreak, if_neg hblank, if_neg hline', if_neg hblock', if_neg hquote,
      if_neg hraw', if_pos hword, htake', hdrop]
  next hword =>
    obtain ⟨rfl, rfl⟩ : .mark = kind ∧ text = [] := by simpa using h
    rw [leading, if_neg hbreak, if_neg hblank, if_neg hline', if_neg hblock', if_neg hquote,
      if_neg hraw', if_neg hword, List.nil_append]

/-- Two texts that agree, or do up to a place where a slash became a blank. -/
def Blanked (cs cs' : List Char) : Prop :=
  cs = cs' ∨ ∃ front more more', cs = front ++ '/' :: more ∧ cs' = front ++ ' ' :: more'

theorem Blanked.append {cs cs' : List Char} (h : Blanked cs cs') (xs : List Char) :
    Blanked (xs ++ cs) (xs ++ cs') := by
  rcases h with rfl | ⟨front, more, more', rfl, rfl⟩
  · exact .inl rfl
  · exact .inr ⟨xs ++ front, more, more', by simp, by simp⟩

/-- Nobody looks for a slash or for a blank behind a piece. -/
theorem Blanked.alike {cs cs' : List Char} (h : Blanked cs cs') : Alike cs cs' := by
  rcases h with rfl | ⟨front, more, more', rfl, rfl⟩
  · exact .inl rfl
  · exact .inr ⟨front, '/', ' ', more, more', rfl, rfl, by simp [Unsought]; decide,
      by simp [Unsought]; decide, by decide⟩

/-- **Behind a piece** that is no line comment, a slash may become a blank. -/
theorem leading_local {offset : Nat} {c : Char} {text rest rest' : List Char}
    {kind : PieceKind} (h : leading offset c (text ++ rest) = .ok (kind, text, rest))
    (hcomment : kind ≠ .lineComment) (hrest : Blanked rest rest') :
    leading offset c (text ++ rest') = .ok (kind, text, rest') :=
  leading_of_alike h hcomment (hrest.append text).alike

end DeclLint
