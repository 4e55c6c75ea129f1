import DeclLint.Proofs.Source.Cutting
import DeclLint.Proofs.Text.LineEnding

/-!
# A text with carriage returns is cut like the one without

A carriage return before a line break is read as a blank, or as one more character of
the comment or literal that the line break stands in or ends.  Only one thing could tell
the two texts apart: a backslash hides the next character of a literal, so a line break
right behind one would not be hidden any more once a carriage return comes between them.
Texts without such a line break (`NoEscapedBreak`) are cut alike.

What is left behind a literal or a block comment is compared first, with no regard to
what was read or where; what was read follows, since both make up the text.

* `LeavesAlike` — what is left once everything open is closed, step by step;
* `closeAll_crlf`, `closeComment_crlf` — what is left behind a literal or a comment;
* `leading_crlf` — one piece;
* `Piece.crlfAll`, `Cuts.crlfAll` — the pieces of a text with carriage returns;
* `Cuts.exists_of_crlf` — it has pieces only if the text without them has some.
-/

namespace DeclLint

/-- No line break stands right behind a backslash. -/
def NoEscapedBreak (cs : List Char) : Prop := ¬ ['\\', '\n'] <:+: cs

theorem NoEscapedBreak.of_not_mem {cs : List Char} (h : '\\' ∉ cs) : NoEscapedBreak cs :=
  fun hinside => h (hinside.subset List.mem_cons_self)

theorem NoEscapedBreak.of_suffix {cs rest : List Char} (h : NoEscapedBreak cs)
    (hrest : rest <:+ cs) : NoEscapedBreak rest :=
  fun hinside => h (hinside.trans hrest.isInfix)

theorem NoEscapedBreak.tail {c : Char} {cs : List Char} (h : NoEscapedBreak (c :: cs)) :
    NoEscapedBreak cs :=
  h.of_suffix (List.suffix_cons c cs)

/-- What is open, wherever it was opened. -/
def Opening.placeless : Opening → Opening
  | quote _ hashes multiline => quote 0 hashes multiline
  | paren _ depth => paren 0 depth

/-- What is left of a text that was read. -/
def remainder (read : Except ParseError (List Char × List Char)) : Option (List Char) :=
  read.toOption.map Prod.snd

/-- What closes a literal holds no line break. -/
theorem not_mem_closer (hashes : Nat) (multiline : Bool) :
    '\n' ∉ Opening.closer hashes multiline := by
  cases multiline <;> simp [Opening.closer, List.mem_replicate]

/-- What closes a literal holds no line ending. -/
theorem isPrefixOf_closer_crlf (hashes : Nat) (multiline : Bool) (cs : List Char) :
    (Opening.closer hashes multiline).isPrefixOf (crlf cs) =
      (Opening.closer hashes multiline).isPrefixOf cs := by
  apply isPrefixOf_crlf (not_mem_closer hashes multiline)
  cases multiline <;> simp [Opening.closer, List.mem_replicate]

/-- Where a literal is open in one list, it is in the other. -/
theorem exists_of_placeless_quote {openings outer : List Opening} {start hashes : Nat}
    {multiline : Bool}
    (h : openings.map Opening.placeless =
      (Opening.quote start hashes multiline :: outer).map Opening.placeless) :
    ∃ start' outer', openings = Opening.quote start' hashes multiline :: outer' ∧
      outer'.map Opening.placeless = outer.map Opening.placeless := by
  obtain ⟨opening, outer', rfl, hopening, houter⟩ := List.map_eq_cons_iff.mp h
  cases opening with
  | quote start' hashes' multiline' =>
      obtain ⟨rfl, rfl⟩ : hashes' = hashes ∧ multiline' = multiline := by
        simpa [Opening.placeless] using hopening
      exact ⟨start', outer', rfl, houter⟩
  | paren => simp [Opening.placeless] at hopening

/-- Where an interpolation is open in one list, it is in the other. -/
theorem exists_of_placeless_paren {openings outer : List Opening} {start depth : Nat}
    (h : openings.map Opening.placeless =
      (Opening.paren start depth :: outer).map Opening.placeless) :
    ∃ start' outer', openings = Opening.paren start' depth :: outer' ∧
      outer'.map Opening.placeless = outer.map Opening.placeless := by
  obtain ⟨opening, outer', rfl, hopening, houter⟩ := List.map_eq_cons_iff.mp h
  cases opening with
  | paren start' depth' =>
      obtain rfl : depth' = depth := by simpa [Opening.placeless] using hopening
      exact ⟨start', outer', rfl, houter⟩
  | quote => simp [Opening.placeless] at hopening

/-- With carriage returns the same is left of a text once everything open is closed, wherever
it was opened and whatever was read before. -/
def LeavesAlike (offset : Nat) (openings : List Opening) (taken cs : List Char) : Prop :=
  ∀ (offset' : Nat) (openings' : List Opening) (taken' : List Char),
    openings'.map Opening.placeless = openings.map Opening.placeless →
      remainder (closeAll offset' openings' taken' (crlf cs)) =
        (remainder (closeAll offset openings taken cs)).map crlf

namespace LeavesAlike

variable {offset start hashes depth : Nat} {multiline : Bool} {opening : Opening}
  {outer : List Opening} {c : Char} {taken cs : List Char}

theorem closed : LeavesAlike offset [] taken cs := by
  intro offset' openings' taken' hopenings
  obtain rfl : openings' = [] := by simpa using hopenings
  simp [closeAll, remainder, Except.toOption]

theorem unclosed : LeavesAlike offset (opening :: outer) taken [] := by
  intro offset' openings' taken' hopenings
  obtain ⟨opening', outer', rfl, -, -⟩ := List.map_eq_cons_iff.mp hopenings
  simp [closeAll, remainder, Except.toOption]

/-- A backslash at the end hides nothing. -/
theorem hidden : LeavesAlike offset (.quote start 0 multiline :: outer) taken ['\\'] := by
  intro offset' openings' taken' hopenings
  obtain ⟨start', outer', rfl, -⟩ := exists_of_placeless_quote hopenings
  rw [crlf_of_not_mem (by decide), closeAll.eq_def, closeAll.eq_def]
  simp [remainder, Except.toOption]

/-- An interpolation is entered in both texts. -/
theorem interpolation
    (h : LeavesAlike (offset + 2) (.paren (offset + 1) 1 :: .quote start 0 multiline :: outer)
      ('(' :: '\\' :: taken) cs) :
    LeavesAlike offset (.quote start 0 multiline :: outer) taken ('\\' :: '(' :: cs) := by
  intro offset' openings' taken' hopenings
  obtain ⟨start', outer', rfl, houter⟩ := exists_of_placeless_quote hopenings
  rw [crlf_cons_of_ne (by decide), crlf_cons_of_ne (by decide), closeAll_interpolation,
    closeAll_interpolation]
  exact h _ _ _ (by simp [Opening.placeless, houter])

/-- An escape hides no line break, so its two characters stay what they are. -/
theorem escape (hc : c ≠ '(') (hbreak : c ≠ '\n')
    (h : LeavesAlike (offset + 1 + c.utf8Size) (.quote start 0 multiline :: outer)
      (c :: '\\' :: taken) cs) :
    LeavesAlike offset (.quote start 0 multiline :: outer) taken ('\\' :: c :: cs) := by
  intro offset' openings' taken' hopenings
  obtain ⟨start', outer', rfl, houter⟩ := exists_of_placeless_quote hopenings
  rw [crlf_cons_of_ne (by decide), crlf_cons_of_ne hbreak, closeAll_escape hc,
    closeAll_escape hc]
  exact h _ _ _ (by simp [Opening.placeless, houter])

/-- A carriage return before a line break is one more character of the literal. -/
theorem lineBreak : LeavesAlike offset (.quote start hashes false :: outer) taken ('\n' :: cs) := by
  intro offset' openings' taken' hopenings
  obtain ⟨start', outer', rfl, -⟩ := exists_of_placeless_quote hopenings
  rw [crlf_lineBreak, closeAll_char (fun _ => by decide) (fun _ => by decide) (by simp),
    closeAll_lineBreak, closeAll_lineBreak]
  rfl

/-- A delimiter holds no line break, so it closes the literal in both texts. -/
theorem delimiter
    (h : LeavesAlike (offset + 1 + (Opening.closer hashes multiline).length) outer
      ((Opening.closer hashes multiline).reverse ++ '"' :: taken) cs) :
    LeavesAlike offset (.quote start hashes multiline :: outer) taken
      ('"' :: (Opening.closer hashes multiline ++ cs)) := by
  intro offset' openings' taken' hopenings
  obtain ⟨start', outer', rfl, houter⟩ := exists_of_placeless_quote hopenings
  rw [crlf_cons_of_ne (by decide), crlf_append, crlf_of_not_mem (not_mem_closer hashes multiline),
    closeAll_delimiter, closeAll_delimiter]
  exact h _ _ _ houter

/-- A line break of a literal of several lines is passed with the carriage return before it. -/
theorem char (hescape : hashes = 0 → c ≠ '\\') (hbreak : multiline = false → c ≠ '\n')
    (hdelimiter : c = '"' → ¬ Opening.closer hashes multiline <+: cs)
    (h : LeavesAlike (offset + c.utf8Size) (.quote start hashes multiline :: outer)
      (c :: taken) cs) :
    LeavesAlike offset (.quote start hashes multiline :: outer) taken (c :: cs) := by
  intro offset' openings' taken' hopenings
  obtain ⟨start', outer', rfl, houter⟩ := exists_of_placeless_quote hopenings
  have hdelimiter' : c = '"' → ¬ Opening.closer hashes multiline <+: crlf cs := by
    rwa [← List.isPrefixOf_iff_prefix, isPrefixOf_closer_crlf, List.isPrefixOf_iff_prefix]
  rw [closeAll_char hescape hbreak hdelimiter]
  by_cases hc : c = '\n'
  · subst hc
    rw [crlf_lineBreak, closeAll_char (fun _ => by decide) (fun _ => by decide) (by simp),
      closeAll_char (fun _ => by decide) hbreak (by simp)]
    exact h _ _ _ (by simp [Opening.placeless, houter])
  · rw [crlf_cons_of_ne hc, closeAll_char hescape hbreak hdelimiter']
    exact h _ _ _ (by simp [Opening.placeless, houter])

theorem left
    (h : LeavesAlike (offset + 1) (.paren start (depth + 1) :: outer) ('(' :: taken) cs) :
    LeavesAlike offset (.paren start depth :: outer) taken ('(' :: cs) := by
  intro offset' openings' taken' hopenings
  obtain ⟨start', outer', rfl, houter⟩ := exists_of_placeless_paren hopenings
  rw [crlf_cons_of_ne (by decide), closeAll_left, closeAll_left]
  exact h _ _ _ (by simp [Opening.placeless, houter])

theorem last (hdepth : depth ≤ 1) (h : LeavesAlike (offset + 1) outer (')' :: taken) cs) :
    LeavesAlike offset (.paren start depth :: outer) taken (')' :: cs) := by
  intro offset' openings' taken' hopenings
  obtain ⟨start', outer', rfl, houter⟩ := exists_of_placeless_paren hopenings
  rw [crlf_cons_of_ne (by decide), closeAll_last hdepth, closeAll_last hdepth]
  exact h _ _ _ houter

theorem right (hdepth : ¬ depth ≤ 1)
    (h : LeavesAlike (offset + 1) (.paren start (depth - 1) :: outer) (')' :: taken) cs) :
    LeavesAlike offset (.paren start depth :: outer) taken (')' :: cs) := by
  intro offset' openings' taken' hopenings
  obtain ⟨start', outer', rfl, houter⟩ := exists_of_placeless_paren hopenings
  rw [crlf_cons_of_ne (by decide), closeAll_right hdepth, closeAll_right hdepth]
  exact h _ _ _ (by simp [Opening.placeless, houter])

/-- Three quotes open a literal of several lines. -/
theorem quotes
    (h : LeavesAlike (offset + 3) (.quote offset 0 true :: .paren start depth :: outer)
      ('"' :: '"' :: '"' :: taken) cs) :
    LeavesAlike offset (.paren start depth :: outer) taken ('"' :: '"' :: '"' :: cs) := by
  intro offset' openings' taken' hopenings
  obtain ⟨start', outer', rfl, houter⟩ := exists_of_placeless_paren hopenings
  rw [crlf_cons_of_ne (by decide), crlf_cons_of_ne (by decide), crlf_cons_of_ne (by decide),
    closeAll_quotes, closeAll_quotes]
  exact h _ _ _ (by simp [Opening.placeless, houter])

/-- Two quotes that follow a quote follow it in both texts. -/
theorem quote (hquotes : ¬ ['"', '"'] <+: cs)
    (h : LeavesAlike (offset + 1) (.quote offset 0 false :: .paren start depth :: outer)
      ('"' :: taken) cs) :
    LeavesAlike offset (.paren start depth :: outer) taken ('"' :: cs) := by
  intro offset' openings' taken' hopenings
  obtain ⟨start', outer', rfl, houter⟩ := exists_of_placeless_paren hopenings
  have hquotes' : ¬ ['"', '"'] <+: crlf cs := by
    rwa [← List.isPrefixOf_iff_prefix, isPrefixOf_crlf (by decide) (by decide),
      List.isPrefixOf_iff_prefix]
  rw [crlf_cons_of_ne (by decide), closeAll_quote hquotes', closeAll_quote hquotes]
  exact h _ _ _ (by simp [Opening.placeless, houter])

/-- A line break in an interpolation is passed with the carriage return before it. -/
theorem other (hleft : c ≠ '(') (hright : c ≠ ')') (hquote : c ≠ '"')
    (h : LeavesAlike (offset + c.utf8Size) (.paren start depth :: outer) (c :: taken) cs) :
    LeavesAlike offset (.paren start depth :: outer) taken (c :: cs) := by
  intro offset' openings' taken' hopenings
  obtain ⟨start', outer', rfl, houter⟩ := exists_of_placeless_paren hopenings
  rw [closeAll_other hleft hright hquote]
  by_cases hc : c = '\n'
  · subst hc
    rw [crlf_lineBreak, closeAll_other (by decide) (by decide) (by decide),
      closeAll_other hleft hright hquote]
    exact h _ _ _ (by simp [Opening.placeless, houter])
  · rw [crlf_cons_of_ne hc, closeAll_other hleft hright hquote]
    exact h _ _ _ (by simp [Opening.placeless, houter])

end LeavesAlike

/-- **Behind a literal.**  Whatever is open, the same is left once it is closed. -/
theorem closeAll_crlf {offset : Nat} {openings : List Opening} {taken cs : List Char}
    (hfree : NoEscapedBreak cs) : LeavesAlike offset openings taken cs := by
  fun_induction closeAll offset openings taken cs with
  | case1 => exact .closed
  | case2 => exact .unclosed
  | case3 offset taken start hashes multiline outer c hescape =>
      obtain ⟨rfl, rfl⟩ := hescape
      exact .hidden
  | case4 offset taken start hashes multiline outer c hescape rest ih =>
      obtain ⟨rfl, rfl⟩ := hescape
      exact .interpolation (ih hfree.tail.tail)
  | case5 offset taken start hashes multiline outer c hescape d rest hd ih =>
      obtain ⟨rfl, rfl⟩ := hescape
      have hbreak : d ≠ '\n' := by
        rintro rfl
        exact hfree ⟨[], rest, rfl⟩
      exact .escape hd hbreak (ih hfree.tail.tail)
  | case6 offset taken start hashes multiline outer c cs hescape hbreak =>
      obtain ⟨rfl, rfl⟩ := hbreak
      exact .lineBreak
  | case7 offset taken start hashes multiline outer c cs hescape hbreak hcloses ih =>
      obtain ⟨rfl, hcloser⟩ := hcloses
      obtain ⟨rest, rfl⟩ := List.isPrefixOf_iff_prefix.mp hcloser
      rw [List.take_left' rfl, List.drop_left' rfl] at ih
      exact .delimiter (ih (hfree.tail.of_suffix (List.suffix_append _ _)))
  | case8 offset taken start hashes multiline outer c cs hescape hbreak hcloses ih =>
      exact .char (fun hhashes hc => hescape ⟨hc, hhashes⟩) (fun hline hc => hbreak ⟨hc, hline⟩)
        (fun hc hcloser => hcloses ⟨hc, List.isPrefixOf_iff_prefix.mpr hcloser⟩) (ih hfree.tail)
  | case9 offset taken start depth outer cs ih => exact .left (ih hfree.tail)
  | case10 offset taken start depth outer cs hdepth _ ih => exact .last hdepth (ih hfree.tail)
  | case11 offset taken start depth outer cs hdepth _ ih => exact .right hdepth (ih hfree.tail)
  | case12 offset taken start depth outer cs _ _ ih => exact .quotes (ih hfree.tail.tail.tail)
  | case13 offset taken start depth outer cs hquotes _ _ ih =>
      have hquotes' : ¬ ['"', '"'] <+: cs := by
        rintro ⟨rest, hrest⟩
        exact hquotes rest hrest.symm
      exact .quote hquotes' (ih hfree.tail)
  | case14 offset taken start depth outer c cs hleft hright hquote ih =>
      exact .other hleft hright hquote (ih hfree.tail)

/-- **Behind a block comment.** -/
theorem closeComment_crlf (depth : Nat) (taken taken' cs : List Char) :
    (closeComment depth taken' (crlf cs)).map Prod.snd =
      ((closeComment depth taken cs).map Prod.snd).map crlf := by
  have hreturn : ∀ depth (taken cs : List Char),
      closeComment depth taken ('\r' :: cs) = closeComment depth ('\r' :: taken) cs := by
    intro depth taken cs
    simp [closeComment]
  fun_induction closeComment depth taken cs generalizing taken' with
  | case1 depth taken cs ih =>
      rw [crlf_cons_of_ne (by decide), crlf_cons_of_ne (by decide), closeComment]
      exact ih _
  | case2 taken cs => simp [closeComment]
  | case3 depth taken cs ih =>
      rw [crlf_cons_of_ne (by decide), crlf_cons_of_ne (by decide), closeComment]
      exact ih _
  | case4 depth taken c cs hopens hcloses hleaves ih =>
      by_cases hc : c = '\n'
      · subst hc
        rw [crlf_lineBreak, hreturn, closeComment]
        · exact ih _
        all_goals simp
      · rw [crlf_cons_of_ne hc, closeComment]
        · exact ih _
        · intro rest hslash hrest
          obtain ⟨more, rfl, -⟩ := eq_cons_of_crlf (by decide) (by decide) hrest
          exact hopens more hslash rfl
        · intro rest hdepth hstar hrest
          obtain ⟨more, rfl, -⟩ := eq_cons_of_crlf (by decide) (by decide) hrest
          exact hcloses more hdepth hstar rfl
        · intro depth' rest hdepth hstar hrest
          obtain ⟨more, rfl, -⟩ := eq_cons_of_crlf (by decide) (by decide) hrest
          exact hleaves depth' more hdepth hstar rfl
  | case5 => simp [closeComment]

/-- The quotes that a literal begins with. -/
theorem ofQuote_crlf (offset offset' hashes : Nat) (cs : List Char) :
    (Opening.ofQuote offset' hashes (crlf cs)).1.placeless =
        (Opening.ofQuote offset hashes cs).1.placeless ∧
      (Opening.ofQuote offset' hashes (crlf cs)).2.2 =
        crlf (Opening.ofQuote offset hashes cs).2.2 := by
  unfold Opening.ofQuote
  split
  next rest hrest =>
    obtain ⟨more, rfl, hmore⟩ := eq_cons_of_crlf (by decide) (by decide) hrest
    obtain ⟨more', rfl, rfl⟩ := eq_cons_of_crlf (by decide) (by decide) hmore
    exact ⟨rfl, rfl⟩
  next hcrlf =>
    split
    next rest => exact absurd rfl (hcrlf (crlf rest))
    next => exact ⟨rfl, rfl⟩

theorem ofQuote_suffix (offset hashes : Nat) (cs : List Char) :
    (Opening.ofQuote offset hashes cs).2.2 <:+ cs := by
  unfold Opening.ofQuote
  split
  · exact ⟨['"', '"'], rfl⟩
  · exact List.suffix_refl _

/-- What is left behind a literal. -/
theorem leadingLiteral_crlf (offset offset' hashes : Nat) {cs : List Char}
    (hfree : NoEscapedBreak cs) :
    remainder (leadingLiteral offset' hashes (crlf cs)) =
      (remainder (leadingLiteral offset hashes cs)).map crlf := by
  obtain ⟨hopening, hrest⟩ := ofQuote_crlf offset offset' hashes cs
  unfold leadingLiteral
  dsimp only
  rw [hrest]
  exact closeAll_crlf (hfree.of_suffix (ofQuote_suffix offset hashes cs)) _ _ _ (by simp [hopening])

/-- A text and what is left of it, with carriage returns before the line breaks. -/
def crlfBoth (read : List Char × List Char) : List Char × List Char :=
  (crlf read.1, crlf read.2)

/-- What was read is known from what is left, as both make up what there was. -/
theorem eq_map_crlfBoth {read read' : Option (List Char × List Char)} {cs : List Char}
    (hleft : read'.map Prod.snd = (read.map Prod.snd).map crlf)
    (hsplit : ∀ r ∈ read, r.1 ++ r.2 = cs) (hsplit' : ∀ r ∈ read', r.1 ++ r.2 = crlf cs) :
    read' = read.map crlfBoth := by
  cases read with
  | none => simpa using hleft
  | some r =>
      obtain ⟨r', rfl, hrest⟩ : ∃ r', read' = some r' ∧ r'.2 = crlf r.2 := by simpa using hleft
      have htext : r'.1 = crlf r.1 := by
        have hjoin := hsplit' r' rfl
        rw [← hsplit r rfl, crlf_append, hrest] at hjoin
        exact List.append_cancel_right hjoin
      rw [Option.map_some, crlfBoth, ← htext, ← hrest]

/-- Block comments are read alike. -/
theorem closeComment_eq_crlf (cs : List Char) :
    closeComment 0 [] (crlf cs) = (closeComment 0 [] cs).map crlfBoth :=
  eq_map_crlfBoth (closeComment_crlf 0 [] [] cs) (fun _ h => closeComment_split h)
    (fun _ h => closeComment_split h)

/-- Literals are read alike. -/
theorem leadingLiteral_eq_crlf (offset offset' hashes : Nat) {cs : List Char}
    (hfree : NoEscapedBreak cs) :
    (leadingLiteral offset' hashes (crlf cs)).toOption =
      (leadingLiteral offset hashes cs).toOption.map crlfBoth := by
  have hsplit : ∀ offset (cs : List Char),
      ∀ r ∈ (leadingLiteral offset hashes cs).toOption, r.1 ++ r.2 = cs := by
    intro offset cs r hr
    cases hread : leadingLiteral offset hashes cs with
    | error e => simp [hread, Except.toOption] at hr
    | ok read =>
        obtain rfl : read = r := by simpa [hread, Except.toOption] using hr
        exact leadingLiteral_split hread
  exact eq_map_crlfBoth (leadingLiteral_crlf offset offset' hashes hfree) (hsplit offset cs)
    (hsplit offset' (crlf cs))

/-- What `leading` reads, with carriage returns before the line breaks. -/
def crlfRead (read : PieceKind × List Char × List Char) : PieceKind × List Char × List Char :=
  (read.1, crlf read.2.1, crlf read.2.2)

theorem toOption_map {ε α β : Type} (f : α → β) (x : Except ε α) :
    (x.map f).toOption = x.toOption.map f := by
  cases x <;> rfl

theorem eq_ok_of_toOption {ε α : Type} {x : Except ε α} {a : α} (h : x.toOption = some a) :
    x = .ok a := by
  cases x with
  | error e => simp [Except.toOption] at h
  | ok b => exact congrArg Except.ok (Option.some.inj h)

/-- **Pieces.**  What is neither a line break nor a line comment is read alike. -/
theorem leading_crlf (offset offset' : Nat) {c : Char} {cs : List Char} (hc : c ≠ '\n')
    (hcomment : ¬ (c = '/' ∧ cs.head? = some '/')) (hfree : NoEscapedBreak cs) :
    (leading offset' c (crlf cs)).toOption = (leading offset c cs).toOption.map crlfRead := by
  have hslash : (crlf cs).head? = some '/' ↔ cs.head? = some '/' :=
    head?_crlf_eq_iff (by decide) (by decide)
  have hstar : (crlf cs).head? = some '*' ↔ cs.head? = some '*' :=
    head?_crlf_eq_iff (by decide) (by decide)
  have hafter : (crlf cs).dropWhile (· = '#') = crlf (cs.dropWhile (· = '#')) :=
    dropWhile_crlf rfl rfl cs
  have hmore : (crlf cs).takeWhile (· = '#') = cs.takeWhile (· = '#') :=
    takeWhile_crlf rfl rfl cs
  have hquote : (crlf (cs.dropWhile (· = '#'))).head? = some '"' ↔
      (cs.dropWhile (· = '#')).head? = some '"' := head?_crlf_eq_iff (by decide) (by decide)
  unfold leading
  simp only [hc, if_false, hslash, hcomment, hstar, hafter, hmore, hquote]
  split
  · simp [Except.toOption, crlfRead]
  split
  next hblock =>
    obtain ⟨more, rfl⟩ : ∃ more, cs = '*' :: more := by
      cases cs with
      | nil => simp at hblock
      | cons d more => exact ⟨more, by simp_all⟩
    rw [crlf_cons_of_ne (by decide), List.tail_cons, List.tail_cons, closeComment_eq_crlf]
    cases closeComment 0 [] more with
    | none => rfl
    | some read => simp [Except.toOption, crlfRead, crlfBoth]
  split
  · rw [toOption_map, toOption_map, leadingLiteral_eq_crlf offset offset' 0 hfree]
    cases (leadingLiteral offset 0 cs).toOption <;> rfl
  split
  next hhash =>
    obtain ⟨more, hcs⟩ : ∃ more, cs.dropWhile (· = '#') = '"' :: more := by
      cases hd : cs.dropWhile (· = '#') with
      | nil => simp [hd] at hhash
      | cons d more => exact ⟨more, by simp_all⟩
    have hsuffix : more <:+ cs :=
      (List.suffix_cons '"' more).trans (hcs ▸ List.dropWhile_suffix _)
    have hhashes : '\n' ∉ cs.takeWhile (· = '#') := by
      intro hmem
      simpa using of_mem_takeWhile hmem
    rw [hcs, crlf_cons_of_ne (by decide), List.tail_cons, List.tail_cons, toOption_map,
      toOption_map, leadingLiteral_eq_crlf _ _ _ (hfree.of_suffix hsuffix)]
    cases (leadingLiteral _ _ more).toOption with
    | none => rfl
    | some read => simp [crlfRead, crlfBoth, crlf_of_not_mem hhashes]
  split
  · have hword : '\n' ∉ cs.takeWhile isWordChar := by
      intro hmem
      exact absurd (of_mem_takeWhile hmem) (by decide)
    rw [takeWhile_crlf rfl rfl, dropWhile_crlf rfl rfl]
    simp [Except.toOption, crlfRead, crlf_of_not_mem hword]
  · simp [Except.toOption, crlfRead]

/-- A text is one line, or it has a first line and others behind it. -/
theorem line_cases (cs : List Char) :
    '\n' ∉ cs ∧ cs.takeWhile (· ≠ '\n') = cs ∧ cs.dropWhile (· ≠ '\n') = [] ∨
      ∃ line more, cs = line ++ '\n' :: more ∧ '\n' ∉ line ∧
        cs.takeWhile (· ≠ '\n') = line ∧ cs.dropWhile (· ≠ '\n') = '\n' :: more ∧
        (crlf cs).takeWhile (· ≠ '\n') = line ++ ['\r'] ∧
        (crlf cs).dropWhile (· ≠ '\n') = '\n' :: crlf more := by
  induction cs with
  | nil => exact .inl ⟨by simp, rfl, rfl⟩
  | cons c cs ih =>
      by_cases hc : c = '\n'
      · exact .inr ⟨[], cs, by simp [hc], by simp, by simp [hc], by simp [hc], by simp [hc],
          by simp [hc]⟩
      rcases ih with ⟨hfree, htake, hdrop⟩ | ⟨line, more, hcs, hfree, htake, hdrop, htake', hdrop'⟩
      · exact .inl ⟨by simpa [hc, eq_comm] using hfree, by simpa [hc] using htake,
          by simpa [hc] using hdrop⟩
      · exact .inr ⟨c :: line, more, by simp [hcs], by simpa [hc, eq_comm] using hfree,
          by simpa [hc] using htake, by simpa [hc] using hdrop, by simpa [hc] using htake',
          by simpa [hc] using hdrop'⟩

/-- Pieces with a carriage return before every line break: a line comment takes it in, and
elsewhere it is a blank. -/
def Piece.crlfAll : List Piece → List Piece
  | [] => []
  | ⟨.lineComment, text⟩ :: ⟨.lineBreak, ending⟩ :: ps =>
      ⟨.lineComment, text ++ ['\r']⟩ :: ⟨.lineBreak, ending⟩ :: crlfAll ps
  | ⟨.lineBreak, ending⟩ :: ps => ⟨.blank, ['\r']⟩ :: ⟨.lineBreak, ending⟩ :: crlfAll ps
  | p :: ps => ⟨p.kind, crlf p.text⟩ :: crlfAll ps

/-- Any other piece has carriage returns in its own text only. -/
theorem Piece.crlfAll_cons {p : Piece} (hbreak : p.kind ≠ .lineBreak)
    (hcomment : p.kind ≠ .lineComment) (ps : List Piece) :
    crlfAll (p :: ps) = ⟨p.kind, crlf p.text⟩ :: crlfAll ps := by
  rw [crlfAll.eq_def]
  split
  next => simp_all
  next => simp_all
  next => simp_all
  next h =>
    obtain ⟨rfl, rfl⟩ := List.cons.inj h
    rfl

theorem leading_lineBreak (offset : Nat) (cs : List Char) :
    leading offset '\n' cs = .ok (.lineBreak, [], cs) := by
  simp [leading]

theorem leading_return (offset : Nat) (cs : List Char) :
    leading offset '\r' cs = .ok (.blank, [], cs) := by
  simp [leading]

theorem leading_comment (offset : Nat) {cs : List Char} (h : cs.head? = some '/') :
    leading offset '/' cs =
      .ok (.lineComment, cs.takeWhile (· ≠ '\n'), cs.dropWhile (· ≠ '\n')) := by
  simp [leading, h]

/-- Only a line break is read as one, and only two slashes begin a line comment. -/
theorem kind_of_leading {offset : Nat} {c : Char} {cs text rest : List Char} {kind : PieceKind}
    (h : leading offset c cs = .ok (kind, text, rest)) :
    (kind = .lineBreak → c = '\n') ∧
      (kind = .lineComment → c = '/' ∧ cs.head? = some '/') := by
  have hfits := leading_fits h
  constructor
  · rintro rfl
    have htext : c :: text = ['\n'] := hfits
    exact (List.cons.inj htext).1
  · rintro rfl
    obtain ⟨⟨more, htext⟩, -⟩ := hfits
    obtain ⟨rfl, rfl⟩ : c = '/' ∧ text = '/' :: more := by simpa using htext
    exact ⟨rfl, by rw [← leading_split h]; rfl⟩

/-- A cut of what a line break begins. -/
theorem Cuts.lineBreak {offset : Nat} {cs : List Char} {ps : List Piece}
    (h : Cuts (offset + 1) cs ps) : Cuts offset ('\n' :: cs) (⟨.lineBreak, ['\n']⟩ :: ps) :=
  .cons (leading_lineBreak offset cs) h

/-- A line break is a piece of its own. -/
theorem Cuts.exists_of_lineBreak {offset : Nat} {cs : List Char} {pieces : List Piece}
    (h : Cuts offset ('\n' :: cs) pieces) :
    ∃ ps, pieces = ⟨.lineBreak, ['\n']⟩ :: ps ∧ Cuts (offset + 1) cs ps := by
  cases h with
  | cons hlead tail =>
      rw [leading_lineBreak] at hlead
      obtain ⟨rfl, rfl, rfl⟩ : PieceKind.lineBreak = _ ∧ [] = _ ∧ cs = _ := by simpa using hlead
      exact ⟨_, rfl, tail⟩

/-- So is a carriage return, as a blank. -/
theorem Cuts.exists_of_return {offset : Nat} {cs : List Char} {pieces : List Piece}
    (h : Cuts offset ('\r' :: cs) pieces) :
    ∃ ps, pieces = ⟨.blank, ['\r']⟩ :: ps ∧ Cuts (offset + 1) cs ps := by
  cases h with
  | cons hlead tail =>
      rw [leading_return] at hlead
      obtain ⟨rfl, rfl, rfl⟩ : PieceKind.blank = _ ∧ [] = _ ∧ cs = _ := by simpa using hlead
      exact ⟨_, rfl, tail⟩

/-- **The pieces of a text with carriage returns.** -/
theorem Cuts.crlfAll {offset : Nat} {cs : List Char} {ps : List Piece} (h : Cuts offset cs ps)
    (hfree : NoEscapedBreak cs) (offset' : Nat) : Cuts offset' (crlf cs) (Piece.crlfAll ps) := by
  induction h generalizing offset' with
  | nil => exact .nil offset'
  | @cons offset c cs text rest kind pieces hlead tail ih =>
      have hrest := ih ((hfree.tail).of_suffix ⟨text, leading_split hlead⟩)
      by_cases hc : c = '\n'
      · subst hc
        rw [leading_lineBreak] at hlead
        obtain ⟨rfl, rfl, rfl⟩ : PieceKind.lineBreak = kind ∧ [] = text ∧ cs = rest := by
          simpa using hlead
        rw [crlf_lineBreak, Piece.crlfAll]
        exact .cons (leading_return offset' _) (.lineBreak (hrest _))
      by_cases hcomment : c = '/' ∧ cs.head? = some '/'
      · obtain ⟨rfl, hslash⟩ := hcomment
        rw [leading_comment offset hslash] at hlead
        have hslash' : (crlf cs).head? = some '/' :=
          (head?_crlf_eq_iff (by decide) (by decide)).mpr hslash
        have hlead' := leading_comment offset' hslash'
        rw [crlf_cons_of_ne (by decide)]
        rcases line_cases cs with ⟨hline, htake, hdrop⟩ |
          ⟨line, more, -, hline, htake, hdrop, htake', hdrop'⟩
        · rw [htake, hdrop] at hlead
          obtain ⟨rfl, rfl, rfl⟩ : PieceKind.lineComment = kind ∧ cs = text ∧ [] = rest := by
            simpa using hlead
          obtain rfl : pieces = [] := by
            cases tail
            rfl
          rw [crlf_of_not_mem hline, htake, hdrop] at hlead'
          have hlast : Piece.crlfAll [⟨.lineComment, '/' :: cs⟩] = [⟨.lineComment, '/' :: cs⟩] := by
            simp [Piece.crlfAll, crlf_of_not_mem hline]
          rw [hlast, crlf_of_not_mem hline]
          exact .cons hlead' (.nil _)
        · rw [htake, hdrop] at hlead
          obtain ⟨rfl, rfl, rfl⟩ : PieceKind.lineComment = kind ∧ line = text ∧
              '\n' :: more = rest := by simpa using hlead
          obtain ⟨ps, rfl, -⟩ := tail.exists_of_lineBreak
          rw [htake', hdrop'] at hlead'
          obtain ⟨ps', hps', hcuts⟩ := (hrest (offset' + 1 + utf8Size line)).exists_of_return
          obtain rfl := (List.cons.inj hps').2
          have hoffset : offset' + '/'.utf8Size + utf8Size (line ++ ['\r']) =
              offset' + 1 + utf8Size line + 1 := by
            rw [utf8Size_append, ← Nat.add_assoc]
            rfl
          rw [Piece.crlfAll]
          exact .cons hlead' (hoffset ▸ hcuts)
      · obtain ⟨hbreak, hline⟩ := kind_of_leading hlead
        have hread := leading_crlf offset offset' hc hcomment hfree.tail
        rw [hlead] at hread
        have hlead' := eq_ok_of_toOption hread
        have htext : crlf (c :: text) = c :: crlf text := crlf_cons_of_ne hc text
        rw [Piece.crlfAll_cons (fun h => hc (hbreak h)) fun h => hcomment (hline h), htext,
          crlf_cons_of_ne hc]
        exact .cons hlead' (hrest _)

/-- **Either text has pieces.**  Where the text with carriage returns can be cut, so can the
one without.  The induction is on its length: a line comment takes in the carriage return
that the next line break begins with. -/
theorem Cuts.exists_of_crlf {offset offset' : Nat} {cs : List Char} {pieces : List Piece}
    (h : Cuts offset' (crlf cs) pieces) (hfree : NoEscapedBreak cs) :
    ∃ ps, Cuts offset cs ps := by
  induction hlength : cs.length using Nat.strongRecOn generalizing offset offset' cs
    pieces with
  | ind n ih =>
  cases cs with
  | nil => exact ⟨[], .nil offset⟩
  | cons c cs =>
      by_cases hc : c = '\n'
      · subst hc
        rw [crlf_lineBreak] at h
        obtain ⟨ps, -, h⟩ := h.exists_of_return
        obtain ⟨ps, -, h⟩ := h.exists_of_lineBreak
        obtain ⟨ps, hps⟩ := ih cs.length (by simp [← hlength]) h hfree.tail rfl
        exact ⟨_, hps.lineBreak⟩
      rw [crlf_cons_of_ne hc] at h
      cases h with
      | @cons _ _ _ text' rest' kind pieces hlead' tail =>
      by_cases hcomment : c = '/' ∧ cs.head? = some '/'
      · obtain ⟨rfl, hslash⟩ := hcomment
        have hslash' : (crlf cs).head? = some '/' :=
          (head?_crlf_eq_iff (by decide) (by decide)).mpr hslash
        have hlead := leading_comment offset hslash
        rw [leading_comment offset' hslash'] at hlead'
        rcases line_cases cs with ⟨-, -, hdrop⟩ | ⟨line, more, hcs, -, -, hdrop, htake', hdrop'⟩
        · rw [hdrop] at hlead
          exact ⟨_, .cons hlead (.nil _)⟩
        · rw [hdrop] at hlead
          rw [htake', hdrop'] at hlead'
          obtain ⟨-, -, rfl⟩ : PieceKind.lineComment = kind ∧ line ++ ['\r'] = text' ∧
              '\n' :: crlf more = rest' := by simpa using hlead'
          obtain ⟨ps, -, h⟩ := tail.exists_of_lineBreak
          have hmore : NoEscapedBreak more :=
            hfree.tail.of_suffix ⟨line ++ ['\n'], by simp [hcs]⟩
          have hshort : more.length < n := by
            rw [← hlength, hcs]
            simp only [List.length_cons, List.length_append]
            omega
          obtain ⟨ps, hps⟩ := ih more.length hshort h hmore rfl
          exact ⟨_, .cons hlead hps.lineBreak⟩
      · have hread := leading_crlf offset offset' hc hcomment hfree.tail
        rw [hlead'] at hread
        obtain ⟨⟨kind', text, rest⟩, hlead, hsame⟩ := Option.map_eq_some_iff.mp hread.symm
        obtain ⟨-, -, rfl⟩ : kind' = kind ∧ crlf text = text' ∧ crlf rest = rest' := by
          simpa [crlfRead] using hsame
        have hsplit := leading_split (eq_ok_of_toOption hlead)
        have hshort : rest.length < n := by
          rw [← hlength, ← hsplit]
          simp only [List.length_cons, List.length_append]
          omega
        obtain ⟨ps, hps⟩ := ih rest.length hshort tail (hfree.tail.of_suffix ⟨text, hsplit⟩) rfl
        exact ⟨_, .cons (eq_ok_of_toOption hlead) hps⟩

/-- The pieces of a source text with carriage returns. -/
theorem cut_crlf {source : List Char} {pieces : List Piece} (h : cut source = .ok pieces)
    (hfree : NoEscapedBreak source) : cut (crlf source) = .ok (Piece.crlfAll pieces) :=
  cut_eq_ok_iff.mpr ((cut_eq_ok_iff.mp h).crlfAll hfree 0)

theorem exists_cut_of_crlf {source : List Char} {pieces : List Piece}
    (h : cut (crlf source) = .ok pieces) (hfree : NoEscapedBreak source) :
    ∃ ps, cut source = .ok ps := by
  obtain ⟨ps, hps⟩ : ∃ ps, Cuts 0 source ps := (cut_eq_ok_iff.mp h).exists_of_crlf hfree
  exact ⟨ps, cut_eq_ok_iff.mpr hps⟩

end DeclLint
