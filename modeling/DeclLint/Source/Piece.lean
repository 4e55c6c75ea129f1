import DeclLint.Text.Offset
import DeclLint.Declaration.ParseError

/-!
# A source text cut into pieces

A source text is a sequence of pieces without gaps: line breaks, blanks,
comments, string literals, words and single marks.  Block comments nest.  A
literal may hold interpolations, those may hold literals again, to any depth:
the open ones are kept in a list, innermost first.

* `leading_split` — a piece and what follows it make up the text;
* `cut_join` — the pieces of a text, joined, are the text.
-/

namespace DeclLint

/-- What a piece of source text is. -/
inductive PieceKind where
  | lineBreak
  | blank
  | lineComment
  | blockComment
  | literal
  | word
  | mark
deriving DecidableEq, Repr

/-- A run of characters that belong together. -/
structure Piece where
  kind : PieceKind
  text : List Char
deriving DecidableEq, Repr

/-- Characters of words: ASCII letters and digits, `_`, `$`, and everything
outside ASCII. -/
def isWordChar (c : Char) : Bool :=
  c.isAlphanum || c == '_' || c == '$' || decide (0x80 ≤ c.val)

/-- What is open inside a string literal, and where it was opened. -/
inductive Opening where
  /-- A literal: the offset of its quote, the number of `#` before it, and
  whether three quotes delimit it. -/
  | quote (offset hashes : Nat) (multiline : Bool)
  /-- An interpolation: the offset of its parenthesis and how many are open. -/
  | paren (offset depth : Nat)
deriving DecidableEq, Repr

namespace Opening

/-- The error if the text ends before the opening is closed. -/
def unclosed : Opening → ParseError
  | quote offset _ _ => .unterminated .stringLiteral offset
  | paren offset _ => .unterminated .stringInterpolation offset

/-- What has to follow a quote for the quote to close the literal. -/
def closer (hashes : Nat) (multiline : Bool) : List Char :=
  (if multiline then ['"', '"'] else []) ++ List.replicate hashes '#'

/-- A literal whose quote was just read, the quotes that belong to its opening
delimiter besides, and what follows them. -/
def ofQuote (offset hashes : Nat) : List Char → Opening × List Char × List Char
  | '"' :: '"' :: cs => (quote offset hashes true, ['"', '"'], cs)
  | cs => (quote offset hashes false, [], cs)

end Opening

/-- Read on until everything open is closed.  `openings` holds what is open,
innermost first, `taken` what was read, last character first.  A backslash
hides the next character of a literal without `#`, or begins an interpolation;
a line break ends the hope of a literal that one quote delimits. -/
def closeAll (offset : Nat) (openings : List Opening) (taken cs : List Char) :
    Except ParseError (List Char × List Char) :=
  match openings, cs with
  | [], cs => .ok (taken.reverse, cs)
  | opening :: _, [] => .error opening.unclosed
  | .quote start hashes multiline :: outer, c :: cs =>
      if c = '\\' ∧ hashes = 0 then
        match cs with
        | [] => .error (.unterminated .stringLiteral start)
        | d :: rest =>
            if d = '(' then
              closeAll (offset + 2) (.paren (offset + 1) 1 :: .quote start hashes multiline :: outer)
                (d :: c :: taken) rest
            else
              closeAll (offset + 1 + d.utf8Size) (.quote start hashes multiline :: outer)
                (d :: c :: taken) rest
      else if c = '\n' ∧ multiline = false then
        .error (.unterminated .stringLiteral start)
      else if c = '"' ∧ (Opening.closer hashes multiline).isPrefixOf cs then
        closeAll (offset + 1 + (Opening.closer hashes multiline).length) outer
          ((cs.take (Opening.closer hashes multiline).length).reverse ++ c :: taken)
          (cs.drop (Opening.closer hashes multiline).length)
      else
        closeAll (offset + c.utf8Size) (.quote start hashes multiline :: outer) (c :: taken) cs
  | .paren start depth :: outer, c :: cs =>
      if c = '(' then
        closeAll (offset + 1) (.paren start (depth + 1) :: outer) (c :: taken) cs
      else if c = ')' then
        if depth ≤ 1 then closeAll (offset + 1) outer (c :: taken) cs
        else closeAll (offset + 1) (.paren start (depth - 1) :: outer) (c :: taken) cs
      else if c = '"' then
        match cs with
        | '"' :: '"' :: rest =>
            closeAll (offset + 3) (.quote offset 0 true :: .paren start depth :: outer)
              ('"' :: '"' :: c :: taken) rest
        | cs =>
            closeAll (offset + 1) (.quote offset 0 false :: .paren start depth :: outer)
              (c :: taken) cs
      else
        closeAll (offset + c.utf8Size) (.paren start depth :: outer) (c :: taken) cs
termination_by cs.length
decreasing_by all_goals simp; try omega

/-- Read on until the comments open are closed: one, and `depth` inside it. -/
def closeComment : Nat → List Char → List Char → Option (List Char × List Char)
  | depth, taken, '/' :: '*' :: cs => closeComment (depth + 1) ('*' :: '/' :: taken) cs
  | 0, taken, '*' :: '/' :: cs => some (('/' :: '*' :: taken).reverse, cs)
  | depth + 1, taken, '*' :: '/' :: cs => closeComment depth ('/' :: '*' :: taken) cs
  | depth, taken, c :: cs => closeComment depth (c :: taken) cs
  | _, _, [] => none

/-- The literal whose quote stands at `offset` and is followed by `cs`. -/
def leadingLiteral (offset hashes : Nat) (cs : List Char) :
    Except ParseError (List Char × List Char) :=
  let opened := Opening.ofQuote offset hashes cs
  closeAll (offset + 1 + opened.2.1.length) [opened.1] opened.2.1.reverse opened.2.2

/-- Kind of the piece that begins with `c` at `offset`, the rest of its text,
and what follows it. -/
def leading (offset : Nat) (c : Char) (cs : List Char) :
    Except ParseError (PieceKind × List Char × List Char) :=
  if c = '\n' then .ok (.lineBreak, [], cs)
  else if c = ' ' ∨ c = '\t' ∨ c = '\r' then .ok (.blank, [], cs)
  else if c = '/' ∧ cs.head? = some '/' then
    .ok (.lineComment, cs.takeWhile (· ≠ '\n'), cs.dropWhile (· ≠ '\n'))
  else if c = '/' ∧ cs.head? = some '*' then
    match closeComment 0 [] cs.tail with
    | some (text, rest) => .ok (.blockComment, '*' :: text, rest)
    | none => .error (.unterminated .blockComment offset)
  else if c = '"' then
    (leadingLiteral offset 0 cs).map fun read => (.literal, read)
  else if c = '#' ∧ (cs.dropWhile (· = '#')).head? = some '"' then
    let more := cs.takeWhile (· = '#')
    (leadingLiteral (offset + 1 + more.length) (1 + more.length)
      (cs.dropWhile (· = '#')).tail).map fun read => (.literal, more ++ '"' :: read.1, read.2)
  else if isWordChar c then .ok (.word, cs.takeWhile isWordChar, cs.dropWhile isWordChar)
  else .ok (.mark, [], cs)

/-- What was read and what is left make up what there was. -/
theorem closeAll_split {offset : Nat} {openings : List Opening}
    {taken cs text rest : List Char}
    (h : closeAll offset openings taken cs = .ok (text, rest)) :
    text ++ rest = taken.reverse ++ cs := by
  fun_induction closeAll offset openings taken cs generalizing text rest with
  | case1 => simp_all
  | case2 => simp at h
  | case3 => simp at h
  | case4 => simp_all
  | case5 => simp_all
  | case6 => simp at h
  | case7 offset taken start hashes multiline outer c cs _ _ _ ih =>
      have hmore := ih h
      simpa [List.append_assoc, List.take_append_drop] using hmore
  | case8 => simp_all
  | case9 => simp_all
  | case10 => simp_all
  | case11 => simp_all
  | case12 => simp_all
  | case13 => simp_all
  | case14 => simp_all

/-- What was taken and what is left make up what there was. -/
theorem closeComment_split {depth : Nat} {taken cs text rest : List Char}
    (h : closeComment depth taken cs = some (text, rest)) :
    text ++ rest = taken.reverse ++ cs := by
  fun_induction closeComment depth taken cs generalizing text rest with
  | case1 => simp_all
  | case2 =>
      obtain ⟨rfl, rfl⟩ : _ = text ∧ _ = rest := by simpa using h
      simp
  | case3 => simp_all
  | case4 => simp_all
  | case5 => simp at h

theorem leadingLiteral_split {offset hashes : Nat} {cs text rest : List Char}
    (h : leadingLiteral offset hashes cs = .ok (text, rest)) : text ++ rest = cs := by
  have hsplit := closeAll_split h
  rw [hsplit]
  unfold Opening.ofQuote
  split <;> simp

/-- **Nothing is lost.**  A piece and what follows it make up the text. -/
theorem leading_split {offset : Nat} {c : Char} {cs text rest : List Char}
    {kind : PieceKind} (h : leading offset c cs = .ok (kind, text, rest)) :
    text ++ rest = cs := by
  unfold leading at h
  split at h
  · simp_all
  split at h
  · simp_all
  split at h
  · obtain ⟨-, rfl, rfl⟩ : _ ∧ _ = text ∧ _ = rest := by simpa using h
    exact List.takeWhile_append_dropWhile
  split at h
  next hstar =>
    split at h
    next read left hclose =>
      obtain ⟨-, rfl, rfl⟩ : _ ∧ _ = text ∧ _ = rest := by simpa using h
      have hsplit := closeComment_split hclose
      obtain ⟨tail, rfl⟩ : ∃ tail, cs = '*' :: tail := by
        cases cs with
        | nil => simp at hstar
        | cons d tail => exact ⟨tail, by simp_all⟩
      simpa using hsplit
    next => simp at h
  split at h
  · cases hread : leadingLiteral offset 0 cs with
    | error e => simp [hread, Except.map] at h
    | ok read =>
        obtain ⟨-, rfl⟩ : _ ∧ read = (text, rest) := by simpa [hread, Except.map] using h
        exact leadingLiteral_split hread
  split at h
  next hhash =>
    cases hread : leadingLiteral (offset + 1 + (cs.takeWhile (· = '#')).length)
        (1 + (cs.takeWhile (· = '#')).length) (cs.dropWhile (· = '#')).tail with
    | error e => simp [hread, Except.map] at h
    | ok read =>
        obtain ⟨-, rfl, rfl⟩ : _ ∧ _ = text ∧ read.2 = rest := by
          simpa [hread, Except.map] using h
        obtain ⟨tail, htail⟩ : ∃ tail, cs.dropWhile (· = '#') = '"' :: tail := by
          cases hd : cs.dropWhile (· = '#') with
          | nil => simp [hd] at hhash
          | cons d tail => exact ⟨tail, by simp_all⟩
        have hsplit := leadingLiteral_split hread
        rw [List.append_assoc, List.cons_append, hsplit, htail, List.tail_cons, ← htail]
        exact List.takeWhile_append_dropWhile
  split at h
  · obtain ⟨-, rfl, rfl⟩ : _ ∧ _ = text ∧ _ = rest := by simpa using h
    exact List.takeWhile_append_dropWhile
  · simp_all

/-- Cut the text at `offset` into pieces and add them to those already `done`,
last piece first. -/
def cutFrom (offset : Nat) (done : List Piece) (cs : List Char) :
    Except ParseError (List Piece) :=
  match cs with
  | [] => .ok done.reverse
  | c :: cs =>
      match hlead : leading offset c cs with
      | .error e => .error e
      | .ok (kind, text, rest) =>
          have : rest.length ≤ cs.length := by
            have := congrArg List.length (leading_split hlead)
            simp at this
            omega
          cutFrom (offset + c.utf8Size + utf8Size text) (⟨kind, c :: text⟩ :: done) rest
termination_by cs.length

/-- The pieces of a source text. -/
def cut (source : List Char) : Except ParseError (List Piece) := cutFrom 0 [] source

/-- The text of some pieces, one after another. -/
def joinPieces (pieces : List Piece) : List Char := pieces.flatMap Piece.text

/-- The pieces of a text make it up again. -/
theorem joinPieces_cutFrom {offset : Nat} {done pieces : List Piece} {cs : List Char}
    (h : cutFrom offset done cs = .ok pieces) :
    joinPieces pieces = joinPieces done.reverse ++ cs := by
  fun_induction cutFrom offset done cs with
  | case1 => simp_all [joinPieces]
  | case2 => simp at h
  | case3 offset done c cs kind text rest hlead _ ih =>
      rw [ih h, ← leading_split hlead]
      simp [joinPieces, List.append_assoc]

/-- **No gaps.**  The pieces of a text, joined, are the text. -/
theorem cut_join {source : List Char} {pieces : List Piece}
    (h : cut source = .ok pieces) : joinPieces pieces = source := by
  simpa [joinPieces] using joinPieces_cutFrom h

end DeclLint
