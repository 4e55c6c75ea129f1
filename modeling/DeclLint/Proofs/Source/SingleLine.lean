import DeclLint.Proofs.Source.Partition
import DeclLint.Proofs.Source.Unterminated

/-!
# Literals of one line

A literal that one quote delimits ends on its line, or the text is refused.  What stands in it
is a row of characters, escapes and interpolations (`Stretch`), and only an interpolation may
span lines.  There is one more way over the end of a line: an escape hides the character behind
the backslash whatever it is, a line break too.

* `Closes.exists_parts` — the parts of a literal;
* `Stretch.mem_of_lineBreak` — the parts that hold a line break;
* `Stretch.leadingLiteral_eq_error` — a literal that is open at the end of its line;
* `Token.ofSource_line` — the literals of a text.
-/

namespace DeclLint

/-- What stands in a literal.  Of an interpolation, what follows its parenthesis is given, the
closing one included. -/
inductive LiteralPart where
  | plain (c : Char)
  | escape (c : Char)
  | interpolation (inner : List Char)
deriving DecidableEq, Repr

/-- The characters of the part. -/
def LiteralPart.text : LiteralPart → List Char
  | plain c => [c]
  | escape c => ['\\', c]
  | interpolation inner => '\\' :: '(' :: inner

/-- Whether the part is an interpolation. -/
def LiteralPart.isInterpolation : LiteralPart → Bool
  | interpolation _ => true
  | _ => false

/-- Parts of a literal of one line, none of which closes it, and what follows them. -/
inductive Stretch (hashes : Nat) : List LiteralPart → List Char → Prop
  | nil (rest : List Char) : Stretch hashes [] rest
  | plain {c : Char} {parts : List LiteralPart} {rest : List Char} (hescape : hashes = 0 → c ≠ '\\')
      (hbreak : c ≠ '\n')
      (hdelimiter : c = '"' →
        ¬ List.replicate hashes '#' <+: parts.flatMap LiteralPart.text ++ rest)
      (tail : Stretch hashes parts rest) : Stretch hashes (.plain c :: parts) rest
  | escape {c : Char} {parts : List LiteralPart} {rest : List Char} (hhashes : hashes = 0)
      (hc : c ≠ '(') (tail : Stretch hashes parts rest) : Stretch hashes (.escape c :: parts) rest
  | interpolation {inner : List Char} {parts : List LiteralPart} {rest : List Char}
      (hhashes : hashes = 0) (hinner : Closes .bracketed inner)
      (tail : Stretch hashes parts rest) : Stretch hashes (.interpolation inner :: parts) rest

/-- What follows the quote of a literal of one line, where only parts of some kind hold line
breaks. -/
def BreaksOnlyIn (kind : LiteralPart → Prop) (hashes : Nat) (text : List Char) : Prop :=
  ∃ parts, text = parts.flatMap LiteralPart.text ++ '"' :: List.replicate hashes '#' ∧
    Stretch hashes parts ('"' :: List.replicate hashes '#') ∧
    ∀ part ∈ parts, '\n' ∈ part.text → kind part

/-- **The parts of a literal.** -/
theorem Closes.exists_parts {hashes : Nat} {text : List Char}
    (h : Closes (.quoted hashes false) text) :
    ∃ parts, text = parts.flatMap LiteralPart.text ++ '"' :: List.replicate hashes '#' ∧
      Stretch hashes parts ('"' :: List.replicate hashes '#') := by
  generalize henclosure : Enclosure.quoted hashes false = enclosure at h
  induction h with
  | delimiter =>
      obtain ⟨rfl, rfl⟩ := Enclosure.quoted.inj henclosure
      exact ⟨[], rfl, .nil _⟩
  | @char hashes' multiline c text hescape hbreak hdelimiter tail ih =>
      obtain ⟨rfl, rfl⟩ := Enclosure.quoted.inj henclosure
      obtain ⟨parts, rfl, hparts⟩ := ih rfl
      exact ⟨.plain c :: parts, rfl, .plain hescape (hbreak rfl) hdelimiter hparts⟩
  | @escape multiline c text hc tail ih =>
      obtain ⟨rfl, rfl⟩ := Enclosure.quoted.inj henclosure
      obtain ⟨parts, rfl, hparts⟩ := ih rfl
      exact ⟨.escape c :: parts, rfl, .escape rfl hc hparts⟩
  | @interpolation multiline inner text hinner tail _ ih =>
      obtain ⟨rfl, rfl⟩ := Enclosure.quoted.inj henclosure
      obtain ⟨parts, rfl, hparts⟩ := ih rfl
      exact ⟨.interpolation inner :: parts, by simp [LiteralPart.text], .interpolation rfl hinner hparts⟩
  | paren | other | group | literal | multiline => simp at henclosure

namespace Stretch

variable {hashes : Nat} {parts : List LiteralPart} {rest : List Char}

/-- **Line breaks** are in interpolations, or behind the backslash of an escape. -/
theorem mem_of_lineBreak (h : Stretch hashes parts rest) {part : LiteralPart} (hpart : part ∈ parts)
    (hbreak : '\n' ∈ part.text) :
    part.isInterpolation = true ∨ (hashes = 0 ∧ part = .escape '\n') := by
  induction h with
  | nil => simp at hpart
  | @plain c parts rest _ hc _ tail ih =>
      rcases List.mem_cons.mp hpart with rfl | hpart
      · exact absurd (List.mem_singleton.mp hbreak).symm hc
      · exact ih hpart
  | @escape c parts rest hhashes _ tail ih =>
      rcases List.mem_cons.mp hpart with rfl | hpart
      · obtain rfl : '\n' = c := by simpa [LiteralPart.text] using hbreak
        exact .inr ⟨hhashes, rfl⟩
      · exact ih hpart
  | @interpolation inner parts rest _ _ tail ih =>
      rcases List.mem_cons.mp hpart with rfl | hpart
      · exact .inl rfl
      · exact ih hpart

/-- The literal is still open behind its parts. -/
theorem closeAll_eq (h : Stretch hashes parts rest) (offset start : Nat) (taken : List Char) :
    ∃ offset' taken', closeAll offset [.quote start hashes false] taken
        (parts.flatMap LiteralPart.text ++ rest) =
      closeAll offset' [.quote start hashes false] taken' rest := by
  induction h generalizing offset taken with
  | nil rest => exact ⟨offset, taken, rfl⟩
  | @plain c parts rest hescape hbreak hdelimiter tail ih =>
      obtain ⟨offset', taken', hrest⟩ := ih (offset + c.utf8Size) (c :: taken)
      have hpassed := @closeAll_char hashes false c _ hescape (fun _ => hbreak) hdelimiter offset
        start [] taken
      exact ⟨offset', taken', hpassed.trans hrest⟩
  | @escape c parts rest hhashes hc tail ih =>
      subst hhashes
      obtain ⟨offset', taken', hrest⟩ := ih (offset + 1 + c.utf8Size) (c :: '\\' :: taken)
      exact ⟨offset', taken', (closeAll_escape hc offset start [] taken).trans hrest⟩
  | @interpolation inner parts rest hhashes hinner tail ih =>
      subst hhashes
      obtain ⟨offset', taken', hrest⟩ :=
        ih (offset + 2 + utf8Size inner) (inner.reverse ++ '(' :: '\\' :: taken)
      have hentered := @Closes.closeAll_eq _ _ hinner (.paren (offset + 1) 1) Nat.one_ne_zero rfl
        (offset + 2) [.quote start 0 false] ('(' :: '\\' :: taken)
        (parts.flatMap LiteralPart.text ++ rest)
      refine ⟨offset', taken', ?_⟩
      rw [List.flatMap_cons, LiteralPart.text, List.append_assoc, List.cons_append,
        List.cons_append, closeAll_interpolation, hentered]
      exact hrest

/-- **A literal that is open at the end of its line** is refused. -/
theorem leadingLiteral_eq_error (h : Stretch hashes parts rest) (hrest : ∀ c ∈ rest.head?, c = '\n')
    (hquotes : ¬ ['"', '"'] <+: parts.flatMap LiteralPart.text ++ rest) (offset : Nat) :
    leadingLiteral offset hashes (parts.flatMap LiteralPart.text ++ rest) =
      .error (.unterminated .stringLiteral offset) := by
  rw [leadingLiteral, Opening.ofQuote_of_not_prefix hquotes]
  obtain ⟨offset', taken', hpassed⟩ := h.closeAll_eq (offset + 1) offset []
  have hopened : closeAll (offset + 1) [.quote offset hashes false] []
      (parts.flatMap LiteralPart.text ++ rest) = .error (.unterminated .stringLiteral offset) := by
    rw [hpassed]
    cases rest with
    | nil => rw [closeAll, Opening.unclosed]
    | cons c rest =>
        obtain rfl : c = '\n' := hrest c rfl
        rw [closeAll.eq_def]
        simp
  exact hopened

end Stretch

/-- Only a literal bears a literal token. -/
theorem Token.eq_of_literal {offset : Nat} {before after : Option Char} {p : Piece} {t : Token}
    (ht : t ∈ ofPiece offset before p after) (hliteral : t.lexeme = .literal) :
    p.kind = .literal ∧ t = ⟨.literal, offset, offset + utf8Size p.text⟩ := by
  unfold ofPiece at ht
  split at ht
  next => simp at ht
  next => simp at ht
  next =>
    obtain rfl := List.mem_singleton.mp ht
    simp at hliteral
  next =>
    split at ht
    · obtain rfl := List.mem_singleton.mp ht
      simp at hliteral
    · simp at ht
  next hkind => exact ⟨hkind, List.mem_singleton.mp ht⟩
  next =>
    obtain rfl := List.mem_singleton.mp ht
    simp at hliteral
  next =>
    obtain ⟨c, -, rfl⟩ := List.mem_map.mp ht
    unfold lexemeOfMark at hliteral
    split at hliteral
    · simp at hliteral
    · split at hliteral <;> simp at hliteral

/-- The text of a literal token. -/
theorem Token.exists_quoted {source : List Char} {pieces : List Piece} {t : Token}
    (h : cut source = .ok pieces) (ht : t ∈ ofPieces pieces) (hliteral : t.lexeme = .literal) :
    ∃ hashes text rest, Occupies source (.between t.start t.stop)
        (List.replicate hashes '#' ++ '"' :: text) ∧
      leadingLiteral (t.start + hashes) hashes (text ++ rest) = .ok (text, rest) := by
  obtain ⟨offset, p, before, after, hp, hmem⟩ := exists_standsAt ht
  obtain ⟨hkind, rfl⟩ := eq_of_literal hmem hliteral
  have hoccupies := hp.occupies h
  obtain ⟨front, back, rfl, rfl⟩ := hp
  have hbehind := (cut_eq_ok_iff.mp h).behind front
  generalize joinPieces (p :: back) = cs at hbehind
  cases hbehind with
  | @cons _ c cs text rest kind _ hlead tail =>
      obtain rfl : kind = .literal := hkind
      rw [Nat.zero_add] at hlead
      obtain ⟨hashes, read, htext, hread⟩ := exists_quoted_of_leading hlead
      refine ⟨hashes, read, rest, ?_, hread⟩
      rw [← htext, ByteRange.between, Nat.add_sub_cancel_left]
      exact hoccupies

/-- **A literal of one line** that is read. -/
theorem breaksOnlyIn_of_leadingLiteral {offset hashes : Nat} {text rest : List Char}
    (h : leadingLiteral offset hashes (text ++ rest) = .ok (text, rest))
    (hquotes : ¬ ['"', '"'] <+: text) :
    BreaksOnlyIn (fun part => part.isInterpolation = true ∨ (hashes = 0 ∧ part = .escape '\n'))
      hashes text := by
  by_cases hlong : ['"', '"'] <+: text ++ rest
  · obtain ⟨more, hmore⟩ := hlong
    rw [← hmore] at h
    obtain ⟨read, rfl, -, -⟩ := leadingLiteral_multiline_eq_ok_iff.mp h
    exact absurd ⟨read, rfl⟩ hquotes
  · obtain ⟨parts, htext, hparts⟩ := ((leadingLiteral_eq_ok_iff hlong).mp h).2.exists_parts
    refine ⟨parts, htext, hparts, ?_⟩
    intro part hpart hbreak
    exact hparts.mem_of_lineBreak hpart hbreak

/-- A literal that is not closed. -/
theorem Reads.ofSource_eq_error {source : String} {pieces : List Piece} {hashes : Nat}
    {cs : List Char} {e : ParseError}
    (h : Reads 0 source.toList pieces (List.replicate hashes '#' ++ '"' :: cs))
    (hfault : leadingLiteral (utf8Size (joinPieces pieces) + hashes) hashes cs = .error e) :
    Token.ofSource source = .error e := by
  obtain ⟨c, more, hmore⟩ : ∃ c more, List.replicate hashes '#' ++ '"' :: cs = c :: more :=
    List.exists_cons_of_ne_nil (by simp)
  rw [hmore] at h
  apply Token.ofSource_eq_error_iff.mpr
  apply cut_eq_error_iff.mpr
  refine ⟨pieces, c, more, h, ?_⟩
  rw [leading_of_hashes hmore.symm, hfault]
  rfl

/-- **Literals of one line.**  A literal token has some `#`, a quote and what closes it, and
unless it begins with three quotes, a line break in it is in an interpolation, or it is behind
a backslash.  A quote that nothing closes, or that the end of its line leaves open, refuses the
text. -/
theorem Token.ofSource_line (source : String) :
    (∀ tokens comments, ofSource source = .ok (tokens, comments) →
      ∀ t ∈ tokens, t.lexeme = .literal → ∃ hashes text,
        Occupies source.toList (.between t.start t.stop)
          (List.replicate hashes '#' ++ '"' :: text) ∧
        (¬ ['"', '"'] <+: text → BreaksOnlyIn
          (fun part => part.isInterpolation = true ∨ (hashes = 0 ∧ part = .escape '\n'))
          hashes text)) ∧
    (∀ pieces hashes cs, Reads 0 source.toList pieces (List.replicate hashes '#' ++ '"' :: cs) →
      ¬ ['"', '"'] <+: cs →
      ((∀ text, text <+: cs → ¬ Closes (.quoted hashes false) text) →
        ∃ construct place, ofSource source = .error (.unterminated construct place)) ∧
      (∀ parts rest, cs = parts.flatMap LiteralPart.text ++ rest → Stretch hashes parts rest →
        (∀ c ∈ rest.head?, c = '\n') → ofSource source =
          .error (.unterminated .stringLiteral (utf8Size (joinPieces pieces) + hashes)))) := by
  refine ⟨?_, ?_⟩
  · intro tokens comments h t ht hliteral
    obtain ⟨pieces, hcut, rfl, rfl⟩ := ofSource_eq_ok_iff.mp h
    obtain ⟨hashes, text, rest, hoccupies, hread⟩ := exists_quoted hcut ht hliteral
    refine ⟨hashes, text, hoccupies, ?_⟩
    intro hquotes
    exact breaksOnlyIn_of_leadingLiteral hread hquotes
  · intro pieces hashes cs hreads hquotes
    refine ⟨?_, ?_⟩
    · intro hopen
      cases hread : leadingLiteral (utf8Size (joinPieces pieces) + hashes) hashes cs with
      | ok read =>
          obtain ⟨rfl, hcloses⟩ := (leadingLiteral_eq_ok_iff hquotes).mp hread
          exact absurd hcloses (hopen _ (List.prefix_append _ _))
      | error e =>
          have herror := hreads.ofSource_eq_error hread
          obtain ⟨construct, front, back, rfl, -⟩ :=
            cut_pointsInto (ofSource_eq_error_iff.mp herror)
          exact ⟨construct, _, herror⟩
    · rintro parts rest rfl hparts hrest
      exact hreads.ofSource_eq_error (hparts.leadingLiteral_eq_error hrest hquotes _)

/-- A literal that holds an escaped line break; and a quote that is open at the end of its line,
where a backslash does not help, as there are two `#` before it. -/
theorem Token.ofSource_line_escaped :
    (∃ hashes text, Occupies "é\"a\\\nb\"".toList (.between 2 8)
        (List.replicate hashes '#' ++ '"' :: text) ∧
      (¬ ['"', '"'] <+: text → BreaksOnlyIn
        (fun part => part.isInterpolation = true ∨ (hashes = 0 ∧ part = .escape '\n'))
        hashes text)) ∧
    ofSource "##\"a\\\nb" = .error (.unterminated .stringLiteral 2) := by
  have htokens : ofSource "é\"a\\\nb\"" = .ok ([⟨.word "é", 0, 2⟩, ⟨.literal, 2, 8⟩], []) := by
    with_unfolding_all rfl
  have hparts : Stretch 2 [.plain 'a', .plain '\\'] ['\n', 'b'] :=
    .plain (by decide) (by decide) (by decide) (.plain (by decide) (by decide) (by decide) (.nil _))
  have hends : ∀ c ∈ ['\n', 'b'].head?, c = '\n' := by simp
  refine ⟨?_, ?_⟩
  · exact (ofSource_line _).1 _ _ htokens ⟨.literal, 2, 8⟩ (by simp) rfl
  · exact ((ofSource_line _).2 [] 2 _ (.nil 0 _) (by decide)).2 _ _ rfl hparts hends

/-- A literal of one line does hold a line break outside of its interpolations: one that is
escaped. -/
theorem Token.ofSource_escapedBreak :
    ¬ ∀ source tokens comments, ofSource source = .ok (tokens, comments) →
      ∀ t ∈ tokens, t.lexeme = .literal → ∃ hashes text,
        Occupies source.toList (.between t.start t.stop)
          (List.replicate hashes '#' ++ '"' :: text) ∧
        (¬ ['"', '"'] <+: text →
          BreaksOnlyIn (fun part => part.isInterpolation = true) hashes text) := by
  intro hclaim
  have htokens : ofSource "\"a\\\nb\"" = .ok ([⟨.literal, 0, 6⟩], []) := by
    with_unfolding_all rfl
  have hoccupies : Occupies "\"a\\\nb\"".toList (.between 0 6) ['"', 'a', '\\', '\n', 'b', '"'] :=
    ⟨[], [], rfl, rfl⟩
  obtain ⟨hashes, text, htext, hquotes⟩ :=
    hclaim _ _ _ htokens ⟨.literal, 0, 6⟩ (List.mem_singleton_self _) rfl
  have hread := htext.unique hoccupies
  cases hashes with
  | succ hashes => simp [List.replicate_succ] at hread
  | zero =>
      obtain rfl : text = ['a', '\\', '\n', 'b', '"'] := by simpa using hread
      obtain ⟨parts, hparts, -, hbreaks⟩ := hquotes (by decide)
      have hsame : ['a', '\\', '\n', 'b', '"'] = parts.flatMap LiteralPart.text ++ ['"'] := hparts
      have hmem : '\n' ∈ parts.flatMap LiteralPart.text ++ ['"'] := by
        rw [← hsame]
        decide
      obtain ⟨part, hpart, hbreak⟩ : ∃ part ∈ parts, '\n' ∈ part.text := by simpa using hmem
      have hinterpolation := hbreaks part hpart hbreak
      -- an interpolation has a parenthesis, and there is none
      have hparen : '(' ∈ parts.flatMap LiteralPart.text ++ ['"'] := by
        apply List.mem_append_left
        apply List.mem_flatMap.mpr ⟨part, hpart, _⟩
        cases part with
        | plain c => simp [LiteralPart.isInterpolation] at hinterpolation
        | escape c => simp [LiteralPart.isInterpolation] at hinterpolation
        | interpolation inner => simp [LiteralPart.text]
      rw [← hsame] at hparen
      exact absurd hparen (by decide)

end DeclLint
