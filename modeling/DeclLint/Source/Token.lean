import DeclLint.Source.Piece

/-!
# The tokens of a source text

Of the pieces of a text, blanks and line comments bear no token, and a block
comment bears one only if it spans lines: the line break it hides still
separates statements.  An `=` that belongs to no comparison and a `?` set off
from what is before it are told apart from the other marks here, where their
neighbours are still in sight; so a tree depends on a text only through its
tokens.

* `Token.ofPieces` — the tokens, each with its span in bytes;
* `LineComment.ofPieces` — the line comments, each with its offset and line;
* `Token.ofSource` — both for a source text, or why it is refused.
-/

namespace DeclLint

/-- What a token is. -/
inductive Lexeme where
  | word (text : String)
  | literal
  | lineBreak
  /-- An `=` that belongs to no comparison. -/
  | assign
  /-- A `?` after a blank or after another `?`: no optional mark. -/
  | query
  | mark (c : Char)
deriving DecidableEq, Repr

/-- A lexeme and its span in bytes. -/
structure Token where
  lexeme : Lexeme
  start : Nat
  stop : Nat
deriving DecidableEq, Repr

namespace Token

/-- The character of a mark. -/
def mark? (t : Token) : Option Char :=
  match t.lexeme with
  | .mark c => some c
  | .assign => some '='
  | .query => some '?'
  | _ => none

/-- The text of a word. -/
def word? (t : Token) : Option String :=
  match t.lexeme with
  | .word text => some text
  | _ => none

/-- Whether the token is a given mark. -/
def isMark (c : Char) (t : Token) : Bool := t.mark? == some c

/-- Whether the token is one of the given marks. -/
def isMarkOf (marks : List Char) (t : Token) : Bool :=
  match t.mark? with
  | some c => marks.contains c
  | none => false

/-- Whether the token is a word. -/
def isWord (t : Token) : Bool := t.word?.isSome

/-- Whether the token is one of the given words. -/
def isWordOf (words : List String) (t : Token) : Bool :=
  match t.word? with
  | some text => words.contains text
  | none => false

/-- Whether the token separates lines. -/
def isLineBreak (t : Token) : Bool := t.lexeme == .lineBreak

/-- Characters that make an `=` right after them part of a comparison. -/
def comparisonStarts : List Char := ['=', '!', '<', '>']

/-- The lexeme of a mark, given the characters around it. -/
def lexemeOfMark (before : Option Char) (c : Char) (after : Option Char) : Lexeme :=
  if c = '=' ∧ after ≠ some '=' ∧ ¬ before.any comparisonStarts.contains then .assign
  else if c = '?' ∧ before.any [' ', '\t', '?'].contains then .query
  else .mark c

/-- The tokens of one piece at `offset`, given the characters around it. -/
def ofPiece (offset : Nat) (before : Option Char) (p : Piece) (after : Option Char) :
    List Token :=
  match p.kind with
  | .blank | .lineComment => []
  | .lineBreak => [⟨.lineBreak, offset, offset + utf8Size p.text⟩]
  | .blockComment =>
      if p.text.contains '\n' then
        let place := offset + utf8Size (p.text.takeWhile (· ≠ '\n'))
        [⟨.lineBreak, place, place + 1⟩]
      else []
  | .literal => [⟨.literal, offset, offset + utf8Size p.text⟩]
  | .word => [⟨.word (String.ofList p.text), offset, offset + utf8Size p.text⟩]
  | .mark => p.text.map fun c =>
      ⟨lexemeOfMark before c after, offset, offset + utf8Size p.text⟩

/-- Add the tokens of the pieces at `offset` to those already `done`, last
token first.  `before` is the character before the pieces. -/
def ofPiecesFrom (offset : Nat) (before : Option Char) (done : List Token) :
    List Piece → List Token
  | [] => done.reverse
  | p :: ps =>
      let after := ps.head?.bind fun next => next.text.head?
      ofPiecesFrom (offset + utf8Size p.text) p.text.getLast?
        ((ofPiece offset before p after).reverse ++ done) ps

/-- The tokens of a text cut into pieces, in order. -/
def ofPieces (pieces : List Piece) : List Token := ofPiecesFrom 0 none [] pieces

end Token

/-- A `//` comment: where it begins, its line counted from one, and its text. -/
structure LineComment where
  start : Nat
  line : Nat
  text : List Char
deriving DecidableEq, Repr

namespace LineComment

/-- The span of the comment, from its slashes to the end of its line. -/
def range (c : LineComment) : ByteRange := ⟨c.start, utf8Size c.text⟩

/-- Add the line comments of the pieces at `offset` on line `line` to those
already `done`, last comment first. -/
def ofPiecesFrom (offset line : Nat) (done : List LineComment) :
    List Piece → List LineComment
  | [] => done.reverse
  | p :: ps =>
      let done := if p.kind = .lineComment then ⟨offset, line, p.text⟩ :: done else done
      ofPiecesFrom (offset + utf8Size p.text) (line + p.text.count '\n') done ps

/-- The line comments of a text cut into pieces, in order. -/
def ofPieces (pieces : List Piece) : List LineComment := ofPiecesFrom 0 1 [] pieces

end LineComment

/-- The line comments of a source text.  Comment marks inside literals and
block comments begin none. -/
def lineComments (source : String) : Except ParseError (List LineComment) :=
  (cut source.toList).map LineComment.ofPieces

/-- The tokens and line comments of a source text. -/
def Token.ofSource (source : String) : Except ParseError (List Token × List LineComment) :=
  (cut source.toList).map fun pieces => (ofPieces pieces, LineComment.ofPieces pieces)

end DeclLint
