import DeclLint.Proofs.Outline.Derivation
import DeclLint.Proofs.Source.Partition
import DeclLint.Proofs.Source.Unterminated

/-!
# Where a text without a tree is at fault

Cutting comes first, so a text that is not cut is refused for what is never closed in it,
whatever its braces are.  A text that is cut is refused at a curly bracket: a closing one
while nothing is open, or the innermost one that is open at the end.  The open ones were
passed as tokens (`Reached`), so either way the error points at a token that is a brace, and
a token is in no comment and no literal.

* `Outline.exists_brace_of_run` — the brace of an error;
* `Token.outside_of_mark` — a mark is outside of every comment and literal;
* `declarationTree_fault` — the errors of a text point at what they name.
-/

namespace DeclLint

namespace Outline

/-- The brace of an open frame was passed. -/
theorem Reached.brace_mem {scope : Scope} {past : List Token} {frame : Frame} {frames : List Frame}
    {found : List Declaration} (h : Reached scope past (frame :: frames) found) :
    frame.brace ∈ past ∧ frame.brace.lexeme = .mark '{' := by
  cases h with
  | inside _ _ hbrace _ => exact ⟨by simp, hbrace⟩

/-- **A run fails at a brace.** -/
theorem exists_brace_of_run {all : List Token} {s : State} {e : ParseError} (hs : s.Sound all)
    (h : run s = .error e) :
    ∃ t ∈ all, ∃ c, (c = '{' ∨ c = '}') ∧ t.lexeme = .mark c ∧ e = .unbalanced c t.start := by
  fun_induction run s with
  | case1 => simp at h
  | case2 s hrest frame frames hframes =>
      obtain rfl := Except.error.inj h
      have hreached := hs.reached
      rw [hframes] at hreached
      obtain ⟨hpast, hbrace⟩ := hreached.brace_mem
      refine ⟨frame.brace, ?_, '{', .inl rfl, hbrace, rfl⟩
      rw [hs.all_eq]
      exact List.mem_append_left _ (List.mem_reverse.mpr hpast)
  | case3 s t rest hrest e' hstep =>
      obtain rfl := Except.error.inj h
      obtain ⟨hclosing, -, rfl⟩ := step_eq_error_iff.mp hstep
      refine ⟨t, ?_, '}', .inr rfl, hclosing, rfl⟩
      rw [hs.all_eq, hrest]
      exact List.mem_append_right _ (List.mem_cons_self ..)
  | case4 s t rest hrest next hstep ih =>
      exact ih ((step_move hstep).sound hs hrest) h

/-- **Tokens hold declarations, or a brace without a partner.** -/
theorem exists_brace_of_ofTokens {tokens : List Token} {e : ParseError}
    (h : ofTokens tokens = .error e) :
    ∃ t ∈ tokens, ∃ c, (c = '{' ∨ c = '}') ∧ t.lexeme = .mark c ∧ e = .unbalanced c t.start := by
  have hstart : Reached .file [] [] [] := .file (.nil .file)
  exact exists_brace_of_run ⟨rfl, hstart⟩ h

end Outline

/-- **A mark is outside** of every literal and comment. -/
theorem Token.outside_of_mark {source : List Char} {pieces : List Piece} {t : Token} {c : Char}
    {kind : PieceKind} {r : ByteRange} (h : cut source = .ok pieces) (ht : t ∈ ofPieces pieces)
    (hmark : t.lexeme = .mark c) (hkind : kind ∈ [.literal, .lineComment, .blockComment])
    (hr : r ∈ Piece.spans kind pieces) : t.stop ≤ r.location ∨ r.stop ≤ t.start := by
  obtain ⟨p, hp, rfl, hlength⟩ := Piece.mem_spans_iff.mp hr
  rw [ByteRange.stop, hlength]
  rcases apart_of_piece h ht hp with hbefore | hbehind | ⟨before, after, hmem⟩
  · exact .inl hbefore
  · exact .inr hbehind
  · exfalso
    unfold ofPiece at hmem
    grind

/-- A place inside of a text. -/
theorem lt_utf8ByteSize_of_split {source : String} {front back : List Char} {c : Char}
    (h : source.toList = front ++ c :: back) :
    utf8Size front < source.utf8ByteSize ∧ (Text.ofString source).IsBoundary (utf8Size front) := by
  refine ⟨?_, Text.isBoundary_iff.mpr ⟨front, c :: back, h, rfl⟩⟩
  have hpos := c.utf8Size_pos
  rw [utf8ByteSize_eq_utf8Size, h, utf8Size_append, utf8Size_cons]
  omega

/-- What an error of a text points at: a brace that is a token outside of every literal and
comment, or the mark with which something begins that is never closed. -/
def ParseError.PointsAt (source : String) : ParseError → Prop
  | unbalanced delimiter offset =>
      (delimiter = '{' ∨ delimiter = '}') ∧ offset < source.utf8ByteSize ∧
        (Text.ofString source).IsBoundary offset ∧
        (utf8Bytes source.toList)[offset]? = some delimiter.toUInt8 ∧
        ∃ pieces, cut source.toList = .ok pieces ∧
          ⟨.mark delimiter, offset, offset + 1⟩ ∈ Token.ofPieces pieces ∧
          ∀ kind ∈ [.literal, .lineComment, .blockComment], ∀ r ∈ Piece.spans kind pieces,
            offset < r.location ∨ r.stop ≤ offset
  | unterminated construct offset =>
      offset < source.utf8ByteSize ∧ (Text.ofString source).IsBoundary offset ∧
        cut source.toList = .error (.unterminated construct offset) ∧
        ∃ front back, source.toList = front ++ back ∧ offset = utf8Size front ∧
          construct.BeginsAt front back
  | invalidStructure _ => False

/-- **Errors point at what they name.**  A text that is not cut is refused for the reason for
which it is not cut, whatever its braces are.  Every error of a text points into it, at a brace
that is a token outside of every literal and comment, or at the mark with which a comment, a
literal or an interpolation begins. -/
theorem declarationTree_fault (source : String) :
    (∀ e, cut source.toList = .error e → declarationTree source = .error e) ∧
      ∀ e, declarationTree source = .error e → e.PointsAt source := by
  refine ⟨?_, ?_⟩
  · intro e hcut
    exact bind_eq_error_iff.mpr (.inl hcut)
  · intro e h
    rcases bind_eq_error_iff.mp h with hcut | ⟨pieces, hcut, hrest⟩
    · obtain ⟨construct, front, back, rfl, hsource, hbegins⟩ := cut_pointsInto hcut
      obtain ⟨c, more, rfl⟩ := hbegins.exists_cons
      obtain ⟨hlt, hboundary⟩ := lt_utf8ByteSize_of_split hsource
      exact ⟨hlt, hboundary, hcut, front, _, hsource, rfl, hbegins⟩
    · have htokens : Outline.ofTokens (Token.ofPieces pieces) = .error e := by
        simpa [bind_eq_error_iff, pure, Except.pure] using hrest
      obtain ⟨t, ht, c, hc, hmark, rfl⟩ := Outline.exists_brace_of_ofTokens htokens
      obtain ⟨front, text, back, hsource, hstands⟩ := Token.standsIn_of_mem hcut ht
      obtain rfl : text = [c] := by
        have hspells := hstands.spells
        rwa [hmark] at hspells
      have hascii : c.toNat < 0x80 ∧ c.utf8Size = 1 := by
        rcases hc with rfl | rfl <;> decide
      have hstop : t.stop = t.start + 1 := by
        rw [hstands.stop_eq, hstands.start_eq, utf8Size_cons, hascii.2, utf8Size_nil]
      have hsplit : source.toList = front ++ c :: back := by simp [hsource]
      obtain ⟨hlt, hboundary⟩ := lt_utf8ByteSize_of_split hsplit
      have hbyte := getElem?_utf8Bytes_append hascii.1 front back
      rw [← hstands.start_eq] at hlt hboundary hbyte
      rw [← hsplit] at hbyte
      refine ⟨hc, hlt, hboundary, hbyte, pieces, hcut, ?_, ?_⟩
      · rw [← hmark, ← hstop]
        exact ht
      · intro kind hkind r hr
        rcases Token.outside_of_mark hcut ht hmark hkind hr with hbefore | hbehind
        · exact .inl (by omega)
        · exact .inr hbehind

/-- Braces in a literal and in a comment are passed by, and the one behind them has no partner.
The other text is refused for its interpolation, although its brace has none either. -/
theorem declarationTree_fault_brace :
    (declarationTree "é\"\x7b\"// \x7d\n\x7d" = .error (.unbalanced '}' 10) ∧
      ParseError.PointsAt "é\"\x7b\"// \x7d\n\x7d" (.unbalanced '}' 10)) ∧
    (declarationTree "\x7d\"\\(x" = .error (.unterminated .stringInterpolation 3) ∧
      ParseError.PointsAt "\x7d\"\\(x" (.unterminated .stringInterpolation 3)) := by
  have hbrace : declarationTree "é\"\x7b\"// \x7d\n\x7d" = .error (.unbalanced '}' 10) := by
    with_unfolding_all rfl
  have hcut : cut "\x7d\"\\(x".toList = .error (.unterminated .stringInterpolation 3) := by
    with_unfolding_all rfl
  have hopen := (declarationTree_fault "\x7d\"\\(x").1 _ hcut
  refine ⟨⟨hbrace, ?_⟩, hopen, ?_⟩
  · exact (declarationTree_fault _).2 _ hbrace
  · exact (declarationTree_fault _).2 _ hopen

end DeclLint
