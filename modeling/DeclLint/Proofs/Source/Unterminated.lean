import DeclLint.Proofs.Source.QuotedLiteral
import DeclLint.Proofs.Source.Reading

/-!
# Where a text is refused

A text that is not cut holds a comment, a literal or an interpolation that is never closed,
and the error points at the mark with which it begins (`ParseError.PointsInto`).  The reader
carries the places of everything that is open, however deep, so each of them points at its
mark as soon as it is opened and as long as it is.

* `closeAll_pointsInto` — literals and interpolations;
* `leading_pointsInto` — one piece;
* `cut_pointsInto` — a text.
-/

namespace DeclLint

/-- A construct begins between two parts of a text.  An interpolation begins with its
parenthesis, behind a backslash. -/
def Construct.BeginsAt (construct : Construct) (front back : List Char) : Prop :=
  match construct with
  | .blockComment => ['/', '*'] <+: back
  | .stringLiteral => ['"'] <+: back
  | .stringInterpolation => ['\\'] <:+ front ∧ ['('] <+: back

/-- Nothing begins at the end of a text. -/
theorem Construct.BeginsAt.exists_cons {construct : Construct} {front back : List Char}
    (h : construct.BeginsAt front back) : ∃ c more, back = c :: more := by
  cases construct with
  | blockComment | stringLiteral =>
      obtain ⟨more, rfl⟩ := h
      exact ⟨_, _, rfl⟩
  | stringInterpolation =>
      obtain ⟨-, more, rfl⟩ := h
      exact ⟨_, _, rfl⟩

/-- The error names a construct and the byte of the text where it begins. -/
def ParseError.PointsInto (e : ParseError) (source : List Char) : Prop :=
  ∃ construct front back, e = .unterminated construct (utf8Size front) ∧
    source = front ++ back ∧ construct.BeginsAt front back

/-- What is left of a text at an offset. -/
def LeftAt (source : List Char) (offset : Nat) (cs : List Char) : Prop :=
  ∃ front, source = front ++ cs ∧ offset = utf8Size front

namespace LeftAt

variable {source cs : List Char} {offset : Nat}

/-- Some characters are passed. -/
theorem pass (xs : List Char) (h : LeftAt source offset (xs ++ cs)) :
    LeftAt source (offset + utf8Size xs) cs := by
  obtain ⟨front, rfl, rfl⟩ := h
  exact ⟨front ++ xs, by rw [List.append_assoc], (utf8Size_append front xs).symm⟩

/-- A quote is where it was read. -/
theorem pointsInto_quote (h : LeftAt source offset ('"' :: cs)) :
    (ParseError.unterminated .stringLiteral offset).PointsInto source := by
  obtain ⟨front, hsource, rfl⟩ := h
  exact ⟨.stringLiteral, front, _, rfl, hsource, cs, rfl⟩

/-- So is the parenthesis of an interpolation. -/
theorem pointsInto_interpolation (h : LeftAt source offset ('\\' :: '(' :: cs)) :
    (ParseError.unterminated .stringInterpolation (offset + 1)).PointsInto source := by
  obtain ⟨front, hsource, rfl⟩ := h
  refine ⟨.stringInterpolation, front ++ ['\\'], '(' :: cs, ?_, by simp [hsource],
    List.suffix_append _ _, cs, rfl⟩
  rw [utf8Size_append]
  rfl

end LeftAt

/-- **Literals.**  If everything that is open points at where it begins, then so does the error
of what is not closed. -/
theorem closeAll_pointsInto {source taken cs : List Char} {offset : Nat}
    {openings : List Opening} {e : ParseError} (hleft : LeftAt source offset cs)
    (hopen : ∀ opening ∈ openings, opening.unclosed.PointsInto source)
    (h : closeAll offset openings taken cs = .error e) : e.PointsInto source := by
  fun_induction closeAll offset openings taken cs with
  | case1 => simp at h
  | case2 offset taken opening outer =>
      obtain rfl := Except.error.inj h
      exact hopen opening (List.mem_cons_self ..)
  | case3 offset taken start hashes multiline outer c hescape =>
      obtain rfl := Except.error.inj h
      exact hopen (.quote start hashes multiline) (List.mem_cons_self ..)
  | case4 offset taken start hashes multiline outer c hescape rest ih =>
      obtain ⟨rfl, rfl⟩ := hescape
      exact ih (hleft.pass ['\\', '(']) (List.forall_mem_cons.mpr ⟨hleft.pointsInto_interpolation, hopen⟩) h
  | case5 offset taken start hashes multiline outer c hescape d rest hd ih =>
      obtain ⟨rfl, rfl⟩ := hescape
      apply ih _ hopen h
      exact (hleft.pass ['\\']).pass [d]
  | case6 offset taken start hashes multiline outer c cs hescape hbreak =>
      obtain rfl := Except.error.inj h
      exact hopen (.quote start hashes multiline) (List.mem_cons_self ..)
  | case7 offset taken start hashes multiline outer c cs hescape hbreak hcloses ih =>
      obtain ⟨rfl, hprefix⟩ := hcloses
      obtain ⟨tail, rfl⟩ := List.isPrefixOf_iff_prefix.mp hprefix
      have hpassed := hleft.pass ('"' :: Opening.closer hashes multiline)
      rw [utf8Size_delimiter, ← Nat.add_assoc] at hpassed
      exact ih (by simpa using hpassed) (List.forall_mem_cons.mp hopen).2 h
  | case8 offset taken start hashes multiline outer c cs hescape hbreak hcloses ih =>
      exact ih (hleft.pass [c]) hopen h
  | case9 offset taken start depth outer cs ih =>
      exact ih (hleft.pass ['(']) (List.forall_mem_cons.mpr (List.forall_mem_cons.mp hopen)) h
  | case10 offset taken start depth outer cs hdepth _ ih =>
      exact ih (hleft.pass [')']) (List.forall_mem_cons.mp hopen).2 h
  | case11 offset taken start depth outer cs hdepth _ ih =>
      exact ih (hleft.pass [')']) (List.forall_mem_cons.mpr (List.forall_mem_cons.mp hopen)) h
  | case12 offset taken start depth outer cs _ _ ih =>
      exact ih (hleft.pass ['"', '"', '"']) (List.forall_mem_cons.mpr ⟨hleft.pointsInto_quote, hopen⟩) h
  | case13 offset taken start depth outer cs hquotes _ _ ih =>
      exact ih (hleft.pass ['"']) (List.forall_mem_cons.mpr ⟨hleft.pointsInto_quote, hopen⟩) h
  | case14 offset taken start depth outer c cs hleft' hright hquote ih =>
      exact ih (hleft.pass [c]) hopen h

/-- The error of a literal points at what is not closed. -/
theorem leadingLiteral_pointsInto {source cs : List Char} {offset hashes : Nat} {e : ParseError}
    (hleft : LeftAt source offset ('"' :: cs)) (h : leadingLiteral offset hashes cs = .error e) :
    e.PointsInto source := by
  have hopen : ∀ multiline, ∀ opening ∈ [Opening.quote offset hashes multiline],
      opening.unclosed.PointsInto source := by
    intro multiline
    exact List.forall_mem_singleton.mpr hleft.pointsInto_quote
  by_cases hquotes : ['"', '"'] <+: cs
  · obtain ⟨more, rfl⟩ := hquotes
    exact closeAll_pointsInto (hleft.pass ['"', '"', '"']) (hopen true) h
  · rw [leadingLiteral, Opening.ofQuote_of_not_prefix hquotes] at h
    exact closeAll_pointsInto (hleft.pass ['"']) (hopen false) h

/-- **Pieces.** -/
theorem leading_pointsInto {source cs : List Char} {offset : Nat} {c : Char} {e : ParseError}
    (hleft : LeftAt source offset (c :: cs)) (h : leading offset c cs = .error e) :
    e.PointsInto source := by
  rcases leading_cases offset c cs with
    ⟨rfl, hstar⟩ | ⟨hashes, more, hmore⟩ | ⟨kind, text, rest, hlead, -⟩
  · obtain ⟨tail, rfl⟩ := List.head?_eq_some_iff.mp hstar
    cases hclose : closeComment 0 [] tail with
    | none =>
        obtain rfl : .unterminated .blockComment offset = e := by simpa [leading, hclose] using h
        obtain ⟨front, hsource, rfl⟩ := hleft
        exact ⟨.blockComment, front, _, rfl, hsource, tail, rfl⟩
    | some read => simp [leading, hclose] at h
  · rw [leading_of_hashes hmore] at h
    rw [hmore] at hleft
    have hquote := hleft.pass (List.replicate hashes '#')
    rw [utf8Size_hashes] at hquote
    cases hread : leadingLiteral (offset + hashes) hashes more with
    | error e' =>
        obtain rfl : e' = e := by simpa [hread, Except.map] using h
        exact leadingLiteral_pointsInto hquote hread
    | ok read => simp [hread, Except.map] at h
  · simp [hlead] at h

/-- **Where a text is refused**: at the mark with which something begins that is never closed. -/
theorem cut_pointsInto {source : List Char} {e : ParseError} (h : cut source = .error e) :
    e.PointsInto source := by
  obtain ⟨pieces, c, rest, hreads, hlead⟩ := cut_eq_error_iff.mp h
  exact leading_pointsInto ⟨joinPieces pieces, hreads.join.symm, rfl⟩ hlead

end DeclLint
