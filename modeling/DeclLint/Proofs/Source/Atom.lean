import DeclLint.Proofs.Source.Bracket
import DeclLint.Proofs.Source.TokenLayout
import Mathlib.Data.List.Chain

/-!
# Printed text

A text that is printed atom by atom, that is word by word and mark by mark, is cut
into these atoms again, provided that no two of them run into each other: a word needs
something before the next word, and a `?` is an optional mark only where it is glued
to what it follows.  So the tokens of a printed text are known without a look at its
characters.

* `Atom.Joins` — two atoms that do not run into each other;
* `cuts_pieces` — a printed text is cut into the pieces that were printed;
* `ofPieces_pieces` — the tokens of these are the ones that were printed.
-/

namespace DeclLint

/-- A word that can be printed. -/
structure Word where
  text : String
  ne_nil : text.toList ≠ []
  isWordChar_of_mem : ∀ c ∈ text.toList, isWordChar c = true

/-- What a text is printed of. -/
inductive Atom where
  | lineBreak
  | space
  | tab
  | word (w : Word)
  | opens (b : Bracket)
  | closes (b : Bracket)
  | colon
  /-- An `=` that assigns. -/
  | assign
  /-- A `?` after a type. -/
  | optional

namespace Atom

/-- The characters of an atom. -/
def chars : Atom → List Char
  | lineBreak => ['\n']
  | space => [' ']
  | tab => ['\t']
  | word w => w.text.toList
  | opens b => [b.opening]
  | closes b => [b.closing]
  | colon => [':']
  | assign => ['=']
  | optional => ['?']

/-- What kind of piece an atom is. -/
def kind : Atom → PieceKind
  | lineBreak => .lineBreak
  | space | tab => .blank
  | word _ => .word
  | opens _ | closes _ | colon | assign | optional => .mark

/-- The piece that is read where an atom was printed. -/
def piece (a : Atom) : Piece := ⟨a.kind, a.chars⟩

/-- The lexeme that is read where an atom was printed.  Blanks have none. -/
def lexeme? : Atom → Option Lexeme
  | lineBreak => some .lineBreak
  | space | tab => none
  | word w => some (.word w.text)
  | opens b => some (.mark b.opening)
  | closes b => some (.mark b.closing)
  | colon => some (.mark ':')
  | assign => some .assign
  | optional => some (.mark '?')

/-- Two atoms that do not run into each other. -/
def Joins : Atom → Atom → Prop
  | word _, word _ => False
  | space, optional | tab, optional | optional, optional => False
  | assign, assign => False
  | _, _ => True

/-- The text of some atoms. -/
def text (as : List Atom) : List Char := as.flatMap chars

/-- How many bytes some atoms take up. -/
def size (as : List Atom) : Nat := utf8Size (text as)

/-- The tokens of some atoms that are printed at an offset. -/
def place (offset : Nat) : List Atom → List Token
  | [] => []
  | a :: as =>
      (a.lexeme?.map fun l => ⟨l, offset, offset + utf8Size a.chars⟩).toList ++
        place (offset + utf8Size a.chars) as

@[simp] theorem text_nil : text [] = [] := rfl

@[simp] theorem text_cons (a : Atom) (as : List Atom) : text (a :: as) = a.chars ++ text as := rfl

@[simp] theorem text_append (as bs : List Atom) : text (as ++ bs) = text as ++ text bs := by
  simp [text]

@[simp] theorem size_nil : size [] = 0 := rfl

@[simp] theorem size_cons (a : Atom) (as : List Atom) :
    size (a :: as) = utf8Size a.chars + size as := by
  simp [size]

@[simp] theorem size_append (as bs : List Atom) : size (as ++ bs) = size as + size bs := by
  simp [size]

@[simp] theorem place_nil (offset : Nat) : place offset [] = [] := rfl

theorem place_append (offset : Nat) (as bs : List Atom) :
    place offset (as ++ bs) = place offset as ++ place (offset + size as) bs := by
  induction as generalizing offset with
  | nil => rfl
  | cons a as ih => simp [place, ih, Nat.add_assoc]

theorem chars_ne_nil (a : Atom) : a.chars ≠ [] := by
  cases a with
  | word w => exact w.ne_nil
  | _ => simp [chars]

/-- The first character behind a word is no word character. -/
theorem isWordChar_head?_of_joins {w : Word} {as : List Atom}
    (h : ∀ a ∈ as.head?, (word w).Joins a) :
    ∀ c ∈ (text as).head?, isWordChar c = false := by
  cases as with
  | nil => simp
  | cons a as =>
      have hjoins := h a rfl
      cases a with
      | word v => exact absurd hjoins id
      | opens b | closes b => cases b <;> simp [chars] <;> decide
      | _ => simp [chars, isWordChar]

/-- A printed word is read as far as it goes. -/
theorem leading_word {offset : Nat} {c : Char} {cs rest : List Char}
    (hword : ∀ d ∈ c :: cs, isWordChar d = true) (hrest : ∀ d ∈ rest.head?, isWordChar d = false) :
    leading offset c (cs ++ rest) = .ok (.word, cs, rest) := by
  obtain ⟨hc, hcs⟩ := List.forall_mem_cons.mp hword
  have hne : ∀ d : Char, isWordChar d = false → c ≠ d := by
    rintro d hd rfl
    exact absurd (hc.symm.trans hd) (by decide)
  have htake : (cs ++ rest).takeWhile isWordChar = cs := by
    rw [List.takeWhile_append_of_pos hcs]
    cases rest with
    | nil => simp
    | cons d rest => simp [hrest d rfl]
  have hdrop : (cs ++ rest).dropWhile isWordChar = rest := by
    rw [List.dropWhile_append_of_pos hcs]
    cases rest with
    | nil => simp
    | cons d rest => simp [hrest d rfl]
  unfold leading
  rw [htake, hdrop]
  simp [hc, hne '\n' (by decide), hne ' ' (by decide), hne '\t' (by decide), hne '\r' (by decide),
    hne '/' (by decide), hne '"' (by decide), hne '#' (by decide)]

/-- A printed mark is read by itself. -/
theorem leading_mark {offset : Nat} {c : Char} (cs : List Char)
    (h : c ∈ ['(', ')', '[', ']', '{', '}', ':', '=', '?']) :
    leading offset c cs = .ok (.mark, [], cs) := by
  simp only [List.mem_cons, List.not_mem_nil, or_false] at h
  rcases h with rfl | rfl | rfl | rfl | rfl | rfl | rfl | rfl | rfl <;> simp [leading] <;> decide

/-- **One atom.**  What was printed first is read first. -/
theorem cuts_cons {offset : Nat} {a : Atom} {as : List Atom} {ps : List Piece}
    (h : ∀ b ∈ as.head?, a.Joins b) (tail : Cuts (offset + utf8Size a.chars) (text as) ps) :
    Cuts offset (a.chars ++ text as) (a.piece :: ps) := by
  cases a with
  | word w =>
      obtain ⟨c, cs, hchars⟩ := List.exists_cons_of_ne_nil w.ne_nil
      have hpiece : (word w).piece = ⟨.word, c :: cs⟩ := by simp [piece, kind, chars, hchars]
      have hrest : (word w).chars = c :: cs := hchars
      rw [hpiece, hrest, List.cons_append]
      rw [hrest, utf8Size_cons, ← Nat.add_assoc] at tail
      exact .cons (leading_word (hchars ▸ w.isWordChar_of_mem) (isWordChar_head?_of_joins h)) tail
  | lineBreak => exact .cons (by simp [leading, kind]) tail
  | space | tab => exact .cons (by simp [leading, kind]) tail
  | opens b | closes b =>
      refine .cons (leading_mark (text as) ?_) tail
      cases b <;> decide
  | colon | assign | optional => exact .cons (leading_mark (text as) (by decide)) tail

/-- **Printing and cutting.**  A printed text is cut into what was printed. -/
theorem cuts_pieces {as : List Atom} (h : as.IsChain Joins) (offset : Nat) :
    Cuts offset (text as) (as.map piece) := by
  induction as generalizing offset with
  | nil => exact .nil offset
  | cons a as ih =>
      obtain ⟨hfirst, hrest⟩ := List.isChain_cons.mp h
      exact cuts_cons hfirst (ih hrest _)

/-- An atom keeps its lexeme behind a character. -/
def Follows (before : Option Char) : Atom → Prop
  | optional => before.any [' ', '\t', '?'].contains = false
  | assign => before.any Token.comparisonStarts.contains = false
  | _ => True

/-- Behind a word none of some marks is the last character. -/
theorem any_getLast?_word (w : Word) {marks : List Char}
    (h : marks.any isWordChar = false) :
    (word w).chars.getLast?.any marks.contains = false := by
  rw [Option.any_eq_false]
  intro c hc
  rw [Bool.eq_false_iff]
  intro hmark
  have hword := w.isWordChar_of_mem c (List.mem_of_getLast? hc)
  exact List.any_eq_false.mp h c (List.contains_iff_mem.mp hmark) hword

/-- Atoms that do not run into each other keep their lexemes. -/
theorem Joins.follows {a b : Atom} (h : a.Joins b) : b.Follows a.chars.getLast? := by
  cases b with
  | optional =>
      cases a with
      | word w => exact any_getLast?_word w (by decide)
      | space | tab | optional => exact absurd h id
      | opens b | closes b => cases b <;> rfl
      | _ => rfl
  | assign =>
      cases a with
      | word w => exact any_getLast?_word w (by decide)
      | assign => exact absurd h id
      | opens b | closes b => cases b <;> rfl
      | _ => rfl
  | _ => trivial

/-- The character behind an `=` is no other `=`. -/
theorem head?_text_of_joins {as : List Atom} (h : ∀ b ∈ as.head?, assign.Joins b) :
    (text as).head? ≠ some '=' := by
  cases as with
  | nil => simp
  | cons b as =>
      have hjoins := h b rfl
      rw [text_cons, List.head?_append_of_ne_nil _ b.chars_ne_nil]
      cases b with
      | word w =>
          intro hhead
          have hword := w.isWordChar_of_mem '=' (List.mem_of_head? hhead)
          exact absurd hword (by decide)
      | assign => exact absurd hjoins id
      | opens b | closes b => cases b <;> decide
      | _ => decide

/-- **One token.**  An atom has the lexeme that was printed. -/
theorem ofPiece_piece {offset : Nat} {before : Option Char} {a : Atom} {as : List Atom}
    (hbefore : a.Follows before) (h : ∀ b ∈ as.head?, a.Joins b) :
    Token.ofPiece offset before a.piece (text as).head? =
      (a.lexeme?.map fun l => ⟨l, offset, offset + utf8Size a.chars⟩).toList := by
  cases a with
  | word w => simp [Token.ofPiece, piece, kind, chars, lexeme?]
  | opens b | closes b =>
      cases b <;> simp [Token.ofPiece, piece, kind, chars, lexeme?, Token.lexemeOfMark,
        Bracket.opening, Bracket.closing]
  | assign =>
      have hlexeme : Token.lexemeOfMark before '=' (text as).head? = .assign := by
        simp [Token.lexemeOfMark, head?_text_of_joins h, show _ = false from hbefore]
      simp [Token.ofPiece, piece, kind, chars, lexeme?, hlexeme]
  | optional =>
      have hlexeme : Token.lexemeOfMark before '?' (text as).head? = .mark '?' := by
        have hany : before.any [' ', '\t', '?'].contains = false := hbefore
        simp only [Token.lexemeOfMark, hany]
        simp
      simp [Token.ofPiece, piece, kind, chars, lexeme?, hlexeme]
  | _ => simp [Token.ofPiece, piece, kind, chars, lexeme?, Token.lexemeOfMark]

/-- **The tokens of a printed text.**  They are those that were printed. -/
theorem ofPiecesFrom_pieces {as : List Atom} (h : as.IsChain Joins) (offset : Nat)
    (before : Option Char) (hbefore : ∀ a ∈ as.head?, a.Follows before) :
    Token.ofPiecesFrom offset before [] (as.map piece) = place offset as := by
  induction as generalizing offset before with
  | nil => rfl
  | cons a as ih =>
      obtain ⟨hfirst, hrest⟩ := List.isChain_cons.mp h
      have hnext : ((as.map piece).head?.bind fun next => next.text.head?) = (text as).head? := by
        cases as with
        | nil => rfl
        | cons b as => simp [piece, List.head?_append, List.head?_eq_some_head b.chars_ne_nil]
      rw [List.map_cons, Token.ofPiecesFrom_cons, hnext, ofPiece_piece (hbefore a rfl) hfirst]
      exact congrArg _ (ih hrest _ _ fun b hb => (hfirst b hb).follows)

/-- A printed text can be cut. -/
theorem cut_text {as : List Atom} (h : as.IsChain Joins) :
    cut (text as) = .ok (as.map piece) :=
  cut_eq_ok_iff.mpr (cuts_pieces h 0)

/-- Its tokens are those that were printed. -/
theorem ofPieces_pieces {as : List Atom} (h : as.IsChain Joins) :
    Token.ofPieces (as.map piece) = place 0 as := by
  apply ofPiecesFrom_pieces h
  intro a _
  cases a <;> trivial

end Atom

end DeclLint
