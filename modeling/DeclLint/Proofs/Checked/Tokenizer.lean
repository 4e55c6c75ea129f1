import DeclLint.Proofs.Checked.Literal
import DeclLint.Proofs.Source.TokenLayout

/-!
# Tokens, read byte by byte

A scanner of bytes passes white space and comments, and tells words, literals, line breaks and
marks by their first byte.  It knows neither the text of a token nor what is around a mark, so
the tokens it finds are those of the pieces of the text with less in them (`Token.raw`).  A
round begins where a character begins and ends behind the piece that begins with it, so no
byte inside of a character is ever taken for a mark.

* `Scanner.tokenize`, `Scanner.lineComments` — the scanner;
* `Scanner.readPiece_eq` — one round reads one piece;
* `Scanner.tokenizeFrom_eq` — a run from any place reads the pieces behind it;
* `Scanner.tokenize_eq`, `Scanner.lineComments_eq` — the tokens and line comments of a text.
-/

namespace DeclLint

namespace Scanner

open Checked

/-- What a scanner of bytes knows of a token: a mark is its byte. -/
inductive TokenKind where
  | word
  | literal
  | punct (b : UInt8)
  | newline
deriving DecidableEq, Repr

/-- A token with its span in bytes. -/
structure RawToken where
  kind : TokenKind
  start : Nat
  stop : Nat
deriving DecidableEq, Repr

/-- What one round of the scanner finds, and where the next one begins. -/
structure Reading where
  tokens : List RawToken
  comments : List ByteRange
  next : Nat
deriving DecidableEq, Repr

/-- The number of `#` that open a raw literal at `i`, if one begins there. -/
def rawStringHashes (bytes : List UInt8) (i : Nat) : Checked ParseError Nat := do
  let ahead ← tail bytes i
  let hashes := (ahead.takeWhile (· == '#'.toUInt8)).length
  pure (if bytes[i + hashes]? == some '"'.toUInt8 then hashes else 0)

/-- Whether a literal begins with the byte `b` at `i`. -/
def beginsLiteral (bytes : List UInt8) (b : UInt8) (i : Nat) : Checked ParseError Bool :=
  if b == '"'.toUInt8 then pure true
  else both (b == '#'.toUInt8) do
    let hashes ← rawStringHashes bytes i
    pure (decide (0 < hashes))

/-- Read the literal that begins at `i`. -/
def readLiteral (bytes : List UInt8) (i : Nat) : Checked ParseError Reading := do
  let hashes ← rawStringHashes bytes i
  let stop ← skipString bytes (i + hashes) hashes
  pure ⟨[⟨.literal, i, stop⟩], [], stop⟩

/-- One round of the scanner. -/
def readPiece (bytes : List UInt8) (i : Nat) : Checked ParseError Reading := do
  let b ← get bytes i
  if b == '\n'.toUInt8 then pure ⟨[⟨.newline, i, i + 1⟩], [], i + 1⟩
  else if b == ' '.toUInt8 || b == '\t'.toUInt8 || b == '\r'.toUInt8 then pure ⟨[], [], i + 1⟩
  else if b == '/'.toUInt8 && bytes[i + 1]? == some '/'.toUInt8 then do
    let stop ← skipWhile (fun b => !(b == '\n'.toUInt8)) bytes i
    let length ← sub stop i
    pure ⟨[], [⟨i, length⟩], stop⟩
  else if b == '/'.toUInt8 && bytes[i + 1]? == some '*'.toUInt8 then do
    let (next, newline?) ← commentLoop bytes i 0 none i
    pure ⟨newline?.toList.map fun place => ⟨.newline, place, place + 1⟩, [], next⟩
  else do
    let literal ← beginsLiteral bytes b i
    if literal then readLiteral bytes i
    else if isWordByte b then do
      let stop ← skipWhile isWordByte bytes i
      pure ⟨[⟨.word, i, stop⟩], [], stop⟩
    else pure ⟨[⟨.punct b, i, i + 1⟩], [], i + 1⟩

/-- Scan on from `i`, with the tokens and comments found so far. -/
def tokenizeFrom (bytes : List UInt8) (tokens : List RawToken) (comments : List ByteRange)
    (i : Nat) : Checked ParseError (List RawToken × List ByteRange) :=
  if _h : i < bytes.length then do
    let read ← readPiece bytes i
    if _hnext : i < read.next then
      tokenizeFrom bytes (tokens ++ read.tokens) (comments ++ read.comments) read.next
    else stuck i
  else pure (tokens, comments)
termination_by bytes.length - i

/-- The tokens of a source text, and its line comments. -/
def tokenize (source : String) : Checked ParseError (List RawToken × List ByteRange) :=
  tokenizeFrom (utf8Bytes source.toList) [] [] 0

/-- The line comments of a source text. -/
def lineComments (source : String) : Checked ParseError (List ByteRange) := do
  let (_, comments) ← tokenize source
  pure comments

end Scanner

/-- What a scanner of bytes knows of a lexeme. -/
def Lexeme.kind : Lexeme → Scanner.TokenKind
  | .word _ => .word
  | .literal => .literal
  | .lineBreak => .newline
  | .assign => .punct '='.toUInt8
  | .query => .punct '?'.toUInt8
  | .mark c => .punct c.toUInt8

/-- What a scanner of bytes knows of a token. -/
def Token.raw (t : Token) : Scanner.RawToken := ⟨t.lexeme.kind, t.start, t.stop⟩

/-- A mark is told by its byte alone, whatever it is next to. -/
theorem Token.kind_lexemeOfMark (before : Option Char) (c : Char) (after : Option Char) :
    (lexemeOfMark before c after).kind = .punct c.toUInt8 := by
  unfold lexemeOfMark
  split
  next hassign => rw [hassign.1]; rfl
  next =>
    split
    next hquery => rw [hquery.1]; rfl
    next => rfl

/-- The tokens of a piece at an offset, as a scanner of bytes sees them. -/
def Piece.raws (offset : Nat) (p : Piece) : List Scanner.RawToken :=
  (Token.ofPiece offset none p none).map Token.raw

/-- A scanner of bytes does not look at what is around a piece. -/
theorem Token.map_raw_ofPiece (offset : Nat) (before : Option Char) (p : Piece)
    (after : Option Char) : (ofPiece offset before p after).map raw = p.raws offset := by
  unfold Piece.raws ofPiece
  cases p.kind with
  | mark => simp [raw, kind_lexemeOfMark]
  | _ => rfl

/-- The line comments of a piece at an offset. -/
def Piece.comments (offset : Nat) (p : Piece) : List ByteRange :=
  if p.kind = .lineComment then [⟨offset, utf8Size p.text⟩] else []

/-- What a round of the scanner finds at a piece. -/
def Piece.reading (offset : Nat) (p : Piece) : Scanner.Reading :=
  ⟨p.raws offset, p.comments offset, offset + utf8Size p.text⟩

namespace Scanner

open Checked

variable {bytes : List UInt8} {i : Nat} {c : Char} {cs : List Char}

/-- The characters at an offset, cut where a test fails first. -/
theorem ahead_dropWhile {q : Char → Bool} (h : Ahead bytes i (utf8Bytes cs)) :
    Ahead bytes (i + utf8Size (cs.takeWhile q)) (utf8Bytes (cs.dropWhile q)) := by
  rw [← List.takeWhile_append_dropWhile (p := q) (l := cs), utf8Bytes_append] at h
  rw [← length_utf8Bytes]
  exact h.behind

/-- A run of one character of one byte has as many bytes as characters. -/
theorem utf8Size_takeWhile_eq {d : Char} (hd : d.utf8Size = 1) (cs : List Char) :
    utf8Size (cs.takeWhile (· = d)) = (cs.takeWhile (· = d)).length := by
  induction cs with
  | nil => rfl
  | cons c cs ih =>
      rw [List.takeWhile_cons]
      split
      next hc =>
        obtain rfl : c = d := by simpa using hc
        rw [utf8Size_cons, ih, hd, List.length_cons, Nat.add_comm]
      next => rfl

/-- Some `#` count only if a quote follows them. -/
theorem rawStringHashes_eq (h : Ahead bytes i (utf8Bytes cs)) :
    rawStringHashes bytes i =
      .ok (if (cs.dropWhile (· = '#')).head? = some '"' then (cs.takeWhile (· = '#')).length
        else 0) := by
  have hjudges : Judges (· == '#'.toUInt8) (fun c : Char => decide (c = '#')) := by
    intro c b hb
    exact judges_eq (by decide) c b hb
  have hbehind := ahead_dropWhile (q := fun c => decide (c = '#')) h
  have hsize := utf8Size_takeWhile_eq (d := '#') rfl cs
  rw [rawStringHashes, tail_eq h.le, ok_bind, h.drop_eq, hjudges.takeWhile_utf8Bytes,
    length_utf8Bytes, hsize]
  rw [hsize] at hbehind
  dsimp only
  rw [hbehind.peek (by decide)]
  simp only [beq_iff_eq]
  rfl

/-- The first line break stands behind what comes before it. -/
theorem firstBreak_eq (offset : Nat) (text : List Char) :
    firstBreak offset text =
      if text.contains '\n' then some (offset + utf8Size (text.takeWhile (· ≠ '\n')))
      else none := by
  induction text generalizing offset with
  | nil => rfl
  | cons c text ih =>
      rw [firstBreak, ih, List.takeWhile_cons]
      by_cases hc : c = '\n'
      · simp [hc]
      · simp [hc, Ne.symm hc, Nat.add_assoc]

/-- A block comment bears its first line break. -/
theorem raws_blockComment (offset : Nat) (text : List Char) :
    Piece.raws offset ⟨.blockComment, text⟩ =
      (firstBreak offset text).toList.map fun place => ⟨.newline, place, place + 1⟩ := by
  rw [firstBreak_eq]
  unfold Piece.raws Token.ofPiece
  dsimp only
  split <;> rfl

theorem raws_mark (offset : Nat) (c : Char) :
    Piece.raws offset ⟨.mark, [c]⟩ = [⟨.punct c.toUInt8, offset, offset + c.utf8Size⟩] := by
  simp [Piece.raws, Token.ofPiece, Token.raw, Token.kind_lexemeOfMark]

/-- Any byte of a character tells whether the character begins a literal, since a quote and `#`
have one byte each. -/
theorem beginsLiteral_eq (h : Ahead bytes i (utf8Bytes (c :: cs))) {b : UInt8}
    (hmem : b ∈ String.utf8EncodeChar c) :
    beginsLiteral bytes b i =
      .ok (decide (c = '"' ∨ c = '#' ∧ (cs.dropWhile (· = '#')).head? = some '"')) := by
  have hb : ∀ d : Char, d.toNat < 0x80 → (b == d.toUInt8) = (c == d) :=
    fun d hd => judges_eq hd c b hmem
  rw [beginsLiteral, hb '"' (by decide), hb '#' (by decide), rawStringHashes_eq h, ok_bind]
  by_cases hquote : c = '"'
  · subst hquote
    rfl
  by_cases hmark : c = '#'
  · subst hmark
    by_cases hraw : (cs.dropWhile (· = '#')).head? = some '"' <;> simp [hraw, both] <;> rfl
  · simp [hquote, hmark, both]
    rfl

/-- A literal without `#` is read from its quote on. -/
theorem readLiteral_quote (h : Ahead bytes i (utf8Bytes ('"' :: cs))) :
    readLiteral bytes i =
      ofExcept ((leadingLiteral i 0 cs).map fun read =>
        Piece.reading i ⟨.literal, '"' :: read.1⟩) := by
  have hhashes := rawStringHashes_eq h
  rw [List.dropWhile_cons_of_neg (by decide), List.takeWhile_cons_of_neg (by decide),
    List.head?_cons, if_pos rfl] at hhashes
  rw [readLiteral, hhashes, ok_bind]
  dsimp only [List.length_nil]
  rw [Nat.add_zero, skipString_eq_leadingLiteral h]
  cases leadingLiteral i 0 cs with
  | error e => rfl
  | ok read =>
      have hstop : i + 1 + utf8Size read.1 = i + utf8Size ('"' :: read.1) := by
        rw [utf8Size_cons, ← Nat.add_assoc]
        rfl
      rw [Except.map, ofExcept_ok, ok_bind, hstop]
      rfl

/-- A literal with `#` is read from the quote behind them on, and they are counted. -/
theorem readLiteral_raw (h : Ahead bytes i (utf8Bytes ('#' :: cs)))
    (hquote : (cs.dropWhile (· = '#')).head? = some '"') :
    readLiteral bytes i =
      ofExcept ((leadingLiteral (i + 1 + (cs.takeWhile (· = '#')).length)
          (1 + (cs.takeWhile (· = '#')).length) (cs.dropWhile (· = '#')).tail).map fun read =>
        Piece.reading i ⟨.literal, '#' :: (cs.takeWhile (· = '#') ++ '"' :: read.1)⟩) := by
  obtain ⟨rest, hrest⟩ := List.head?_eq_some_iff.mp hquote
  have hhashes := rawStringHashes_eq h
  have hbehind := ahead_dropWhile (q := fun c => decide (c = '#')) h
  have hsize := utf8Size_takeWhile_eq (d := '#') rfl cs
  rw [List.dropWhile_cons_of_pos (by decide), List.takeWhile_cons_of_pos (by decide), hquote,
    if_pos rfl, List.length_cons] at hhashes
  rw [List.dropWhile_cons_of_pos (by decide), List.takeWhile_cons_of_pos (by decide), hrest,
    utf8Size_cons, hsize] at hbehind
  have hplace : i + ('#'.utf8Size + (cs.takeWhile (· = '#')).length) =
      i + 1 + (cs.takeWhile (· = '#')).length := (Nat.add_assoc _ _ _).symm
  rw [hplace] at hbehind
  rw [readLiteral, hhashes, ok_bind, hrest, List.tail_cons, Nat.add_comm _ 1, ← Nat.add_assoc,
    skipString_eq_leadingLiteral hbehind]
  cases leadingLiteral (i + 1 + (cs.takeWhile (· = '#')).length)
      (1 + (cs.takeWhile (· = '#')).length) rest with
  | error e => rfl
  | ok read =>
      have hstop : i + 1 + (cs.takeWhile (· = '#')).length + 1 + utf8Size read.1 =
          i + utf8Size ('#' :: (cs.takeWhile (· = '#') ++ '"' :: read.1)) := by
        have hmark : '#'.utf8Size = 1 := rfl
        have hquote : '"'.utf8Size = 1 := rfl
        rw [utf8Size_cons, utf8Size_append, utf8Size_cons, hsize, hmark, hquote]
        omega
      rw [Except.map, ofExcept_ok, ok_bind, hstop]
      rfl

/-- A line comment ends before the next line break. -/
theorem readLineComment_eq (h : Ahead bytes i (utf8Bytes ('/' :: cs))) :
    (do
      let stop ← skipWhile (fun b => !(b == '\n'.toUInt8)) bytes i
      let length ← sub stop i
      pure (Reading.mk [] [⟨i, length⟩] stop)) =
        (.ok (Piece.reading i ⟨.lineComment, '/' :: cs.takeWhile (· ≠ '\n')⟩) :
          Checked ParseError Reading) := by
  have hrun := (judges_eq (d := '\n') (by decide)).not.takeWhile_utf8Bytes ('/' :: cs)
  have htest : (fun c : Char => !(c == '\n')) = fun c => decide (c ≠ '\n') := by
    funext c
    rw [Bool.eq_iff_iff]
    simp
  rw [skipWhile_eq h, ok_bind, hrun, length_utf8Bytes, htest, sub_eq (Nat.le_add_right _ _),
    ok_bind, Nat.add_sub_cancel_left]
  rfl

/-- A block comment ends where the last comment inside is closed. -/
theorem readBlockComment_eq (h : Ahead bytes i (utf8Bytes ('/' :: '*' :: cs))) :
    (do
      let (next, newline?) ← commentLoop bytes i 0 none i
      pure (Reading.mk (newline?.toList.map fun place => ⟨.newline, place, place + 1⟩) [] next)) =
        match closeComment 0 [] cs with
        | some (text, _) => .ok (Piece.reading i ⟨.blockComment, '/' :: '*' :: text⟩)
        | none => refuse (.unterminated .blockComment i) := by
  have hinside := (h.next_of_lt (by decide)).next_of_lt (by decide)
  have hloop : commentLoop bytes i 1 none (i + 2) = _ :=
    @commentLoop_eq bytes i (i + 2) 0 [] cs hinside
  rw [commentLoop_cons h, if_pos ⟨rfl, rfl⟩, hloop]
  cases closeComment 0 [] cs with
  | none => rfl
  | some read =>
      have hbreak : firstBreak i ('/' :: '*' :: read.1) = firstBreak (i + 2) read.1 := rfl
      have hnext : i + utf8Size ('/' :: '*' :: read.1) = i + 2 + utf8Size read.1 := by
        rw [utf8Size_cons, utf8Size_cons, ← Nat.add_assoc, ← Nat.add_assoc]
        rfl
      dsimp only
      rw [ok_bind, Piece.reading, raws_blockComment, hbreak, hnext]
      rfl

/-- **One round.**  A round of the scanner finds the piece that begins there, or is refused as
the piece is. -/
theorem readPiece_eq (h : Ahead bytes i (utf8Bytes (c :: cs))) :
    readPiece bytes i =
      ofExcept ((leading i c cs).map fun read => Piece.reading i ⟨read.1, c :: read.2.1⟩) := by
  obtain ⟨b, hmem, hget⟩ := h.first
  have hb : ∀ d : Char, d.toNat < 0x80 → (b == d.toUInt8) = (c == d) :=
    fun d hd => judges_eq hd c b hmem
  have hword : isWordByte b = isWordChar c := judges_isWordByte c b hmem
  have hpeek : ∀ d : Char, d.toNat < 0x80 →
      (c == '/' && bytes[i + 1]? == some d.toUInt8) = decide (c = '/' ∧ cs.head? = some d) := by
    intro d hd
    by_cases hc : c = '/'
    · subst hc
      rw [(h.next_of_lt (by decide)).peek hd, Bool.eq_iff_iff]
      simp
    · simp [hc]
  unfold readPiece leading
  rw [get_eq hget, ok_bind, hb '\n' (by decide), hb ' ' (by decide), hb '\t' (by decide),
    hb '\r' (by decide), hb '/' (by decide), hpeek '/' (by decide), hpeek '*' (by decide), hword]
  by_cases hbreak : c = '\n'
  · subst hbreak
    rfl
  rw [if_neg (by simpa using hbreak), if_neg hbreak]
  by_cases hblank : c = ' ' ∨ c = '\t' ∨ c = '\r'
  · rw [if_pos (by simpa [or_assoc] using hblank), if_pos hblank]
    rcases hblank with rfl | rfl | rfl <;> rfl
  rw [if_neg (by simpa [or_assoc] using hblank), if_neg hblank]
  by_cases hline : c = '/' ∧ cs.head? = some '/'
  · rw [if_pos (by simpa using hline), if_pos hline]
    obtain ⟨rfl, -⟩ := hline
    exact readLineComment_eq h
  rw [if_neg (by simpa using hline), if_neg hline]
  by_cases hblock : c = '/' ∧ cs.head? = some '*'
  · rw [if_pos (by simpa using hblock), if_pos hblock]
    obtain ⟨rfl, hhead⟩ := hblock
    obtain ⟨rest, rfl⟩ := List.head?_eq_some_iff.mp hhead
    rw [readBlockComment_eq h, List.tail_cons]
    cases closeComment 0 [] rest <;> rfl
  rw [if_neg (by simpa using hblock), if_neg hblock]
  rw [beginsLiteral_eq h hmem, ok_bind]
  by_cases hquote : c = '"'
  · subst hquote
    rw [if_pos (by simp), if_pos rfl, readLiteral_quote h]
    cases leadingLiteral i 0 cs <;> rfl
  rw [if_neg hquote]
  by_cases hraw : c = '#' ∧ (cs.dropWhile (· = '#')).head? = some '"'
  · rw [if_pos (by simpa using Or.inr hraw), if_pos hraw]
    obtain ⟨rfl, hraw⟩ := hraw
    rw [readLiteral_raw h hraw]
    dsimp only
    cases leadingLiteral _ _ _ <;> rfl
  rw [if_neg (by simpa [hquote] using hraw), if_neg hraw]
  by_cases hisWord : isWordChar c = true
  · rw [if_pos hisWord, if_pos hisWord, skipWhile_eq h, ok_bind,
      judges_isWordByte.takeWhile_utf8Bytes, length_utf8Bytes, List.takeWhile_cons_of_pos hisWord]
    rfl
  · have hc := toNat_lt_of_isWordChar (Bool.not_eq_true _ ▸ hisWord)
    rw [utf8EncodeChar_of_lt hc, List.mem_singleton] at hmem
    rw [if_neg hisWord, if_neg hisWord, Except.map, ofExcept_ok, Piece.reading, raws_mark,
      utf8Size_cons, utf8Size_of_lt hc, hmem]
    rfl

/-- What the rounds of the scanner find at some pieces, one after another. -/
def gather {α : Type} (f : Nat → Piece → List α) (offset : Nat) : List Piece → List α
  | [] => []
  | p :: ps => f offset p ++ gather f (offset + utf8Size p.text) ps

/-- What is gathered from two lists of pieces, one behind the other. -/
theorem gather_append {α : Type} (f : Nat → Piece → List α) (offset : Nat) (ps qs : List Piece) :
    gather f offset (ps ++ qs) =
      gather f offset ps ++ gather f (offset + utf8Size (joinPieces ps)) qs := by
  induction ps generalizing offset with
  | nil => rfl
  | cons p ps ih =>
      rw [List.cons_append, gather, gather, ih, joinPieces_cons, utf8Size_append,
        List.append_assoc, Nat.add_assoc]

theorem gather_raws (offset : Nat) (before : Option Char) (ps : List Piece) :
    gather (fun offset p => p.raws offset) offset ps =
      (Token.ofPiecesFrom offset before [] ps).map Token.raw := by
  induction ps generalizing offset before with
  | nil => rfl
  | cons p ps ih =>
      rw [gather, Token.ofPiecesFrom_cons, List.map_append, Token.map_raw_ofPiece, ih]

/-- The comments gathered piece by piece are the ranges of those read off all pieces. -/
theorem gather_comments (offset line : Nat) (ps : List Piece) :
    gather (fun offset p => p.comments offset) offset ps =
      (LineComment.ofPiecesFrom offset line [] ps).map LineComment.range := by
  induction ps generalizing offset line with
  | nil => rfl
  | cons p ps ih =>
      rw [gather, LineComment.ofPiecesFrom_cons, List.map_append, ih, Piece.comments]
      split <;> rfl

/-- **A run of the scanner.**  Scanning on from a place behind some pieces finds what the
pieces of the whole text hold. -/
theorem tokenizeFrom_eq {done : List Piece} {offset : Nat}
    (h : Ahead bytes offset (utf8Bytes cs))
    (hoffset : offset = utf8Size (joinPieces done.reverse)) :
    tokenizeFrom bytes (gather (fun offset p => p.raws offset) 0 done.reverse)
        (gather (fun offset p => p.comments offset) 0 done.reverse) offset =
      ofExcept ((cutFrom offset done cs).map fun pieces =>
        (gather (fun offset p => p.raws offset) 0 pieces,
          gather (fun offset p => p.comments offset) 0 pieces)) := by
  fun_induction cutFrom offset done cs with
  | case1 offset done =>
      have hend : ¬ offset < bytes.length := by
        rw [← h.length_eq]
        simp
      rw [tokenizeFrom, dif_neg hend]
      rfl
  | case2 offset done c cs e hlead =>
      obtain ⟨b, -, hget⟩ := h.first
      rw [tokenizeFrom, dif_pos (Ahead.of_get hget).lt, readPiece_eq h, hlead]
      rfl
  | case3 offset done c cs kind text rest hlead _ ih =>
      obtain ⟨b, -, hget⟩ := h.first
      have hsize : utf8Size (c :: text) = c.utf8Size + utf8Size text := rfl
      have hpos := c.utf8Size_pos
      have hnext : offset + utf8Size (c :: text) = offset + c.utf8Size + utf8Size text := by
        rw [hsize, Nat.add_assoc]
      have hbehind := h.next
      rw [← leading_split hlead, utf8Bytes_append] at hbehind
      have hahead := hbehind.behind
      rw [length_utf8Bytes] at hahead
      have hrest := ih hahead (by simp [hoffset, Nat.add_assoc])
      rw [List.reverse_cons, gather_append, gather_append, Nat.zero_add, ← hoffset] at hrest
      rw [tokenizeFrom, dif_pos (Ahead.of_get hget).lt, readPiece_eq h, hlead, Except.map,
        ofExcept_ok, ok_bind, Piece.reading, hnext]
      dsimp only
      rw [dif_pos (by omega), ← hrest, gather, gather, gather, gather, List.append_nil,
        List.append_nil]

/-- **The tokens of a text.**  Scanned byte by byte, a text has the tokens and the line comments
of its pieces, or is refused as it cannot be cut into pieces. -/
theorem tokenize_eq (source : String) :
    tokenize source =
      ofExcept ((cut source.toList).map fun pieces =>
        ((Token.ofPieces pieces).map Token.raw,
          (LineComment.ofPieces pieces).map LineComment.range)) := by
  have hrun := @tokenizeFrom_eq _ source.toList [] 0 (Ahead.start _) rfl
  rw [tokenize]
  refine hrun.trans ?_
  unfold cut
  congr 2
  funext pieces
  rw [gather_raws 0 none, gather_comments 0 1]
  rfl

/-- **The line comments of a text.** -/
theorem lineComments_eq (source : String) :
    lineComments source =
      ofExcept ((DeclLint.lineComments source).map fun comments =>
        comments.map LineComment.range) := by
  rw [lineComments, tokenize_eq, DeclLint.lineComments]
  cases cut source.toList <;> rfl

end Scanner

end DeclLint
