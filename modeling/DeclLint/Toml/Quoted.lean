/-!
# Quoted text in TOML

Text stands between double quotes, with escapes, or between single quotes, as it
is.  Three quotes make it span lines: a line break right after them is dropped,
every other one is read as `\n`, and one or two quotes may stand before the
closing three.  A backslash at the end of a line hides everything up to the next
character that is neither a blank nor a line break.

* `Toml.quoted?` — the text that begins with a quote, and what follows it;
* `quoted?_rest_lt` — what follows is behind the quote.
-/

namespace DeclLint

namespace Toml

/-- Whether a character may stand for itself between quotes: a tab, or anything
but the other control characters. -/
def isPlain (c : Char) : Bool := c == '\t' || (0x20 ≤ c.toNat && c.toNat != 0x7F)

/-- The value of a hexadecimal digit, in either case. -/
def hexDigit? (c : Char) : Option Nat :=
  if '0' ≤ c ∧ c ≤ '9' then some (c.toNat - '0'.toNat)
  else if 'a' ≤ c ∧ c ≤ 'f' then some (c.toNat - 'a'.toNat + 10)
  else if 'A' ≤ c ∧ c ≤ 'F' then some (c.toNat - 'A'.toNat + 10)
  else none

/-- The character whose code point some hexadecimal digits spell. -/
def charOfCode? (digits : List Char) : Option Char := do
  let values ← digits.mapM hexDigit?
  let n := values.foldl (fun n d => n * 16 + d) 0
  if n < 0xD800 ∨ (0xE000 ≤ n ∧ n < 0x110000) then some (Char.ofNat n) else none

/-- The character that a letter after a backslash stands for. -/
def escapedChar? (c : Char) : Option Char :=
  if c = '"' ∨ c = '\\' then some c
  else if c = 'b' then some '\x08'
  else if c = 't' then some '\t'
  else if c = 'n' then some '\n'
  else if c = 'f' then some '\x0c'
  else if c = 'r' then some '\r'
  else none

/-- The text up to the closing double quote.  `text` was read already, last
character first. -/
def basicTail (text : List Char) : List Char → Option (String × List Char)
  | '"' :: rest => some (String.ofList text.reverse, rest)
  | '\\' :: 'u' :: a :: b :: c :: d :: rest =>
      match charOfCode? [a, b, c, d] with
      | some code => basicTail (code :: text) rest
      | none => none
  | '\\' :: 'U' :: a :: b :: c :: d :: e :: f :: g :: h :: rest =>
      match charOfCode? [a, b, c, d, e, f, g, h] with
      | some code => basicTail (code :: text) rest
      | none => none
  | '\\' :: c :: rest =>
      match escapedChar? c with
      | some escaped => basicTail (escaped :: text) rest
      | none => none
  | c :: rest => if isPlain c ∧ c ≠ '\\' then basicTail (c :: text) rest else none
  | [] => none

/-- Whether nothing but blanks comes before the end of the line. -/
def endsLine (cs : List Char) : Bool :=
  match cs.dropWhile fun c => c == ' ' || c == '\t' with
  | '\n' :: _ => true
  | '\r' :: '\n' :: _ => true
  | _ => false

/-- The text up to the closing three double quotes.  While `folding`, blanks and
line breaks are passed over. -/
def multilineTail (folding : Bool) (text : List Char) : List Char → Option (String × List Char)
  | '"' :: '"' :: '"' :: '"' :: '"' :: rest =>
      some (String.ofList ('"' :: '"' :: text).reverse, rest)
  | '"' :: '"' :: '"' :: '"' :: rest => some (String.ofList ('"' :: text).reverse, rest)
  | '"' :: '"' :: '"' :: rest => some (String.ofList text.reverse, rest)
  | '\r' :: '\n' :: rest => multilineTail folding (if folding then text else '\n' :: text) rest
  | '\\' :: 'u' :: a :: b :: c :: d :: rest =>
      match charOfCode? [a, b, c, d] with
      | some code => multilineTail false (code :: text) rest
      | none => none
  | '\\' :: 'U' :: a :: b :: c :: d :: e :: f :: g :: h :: rest =>
      match charOfCode? [a, b, c, d, e, f, g, h] with
      | some code => multilineTail false (code :: text) rest
      | none => none
  | '\\' :: c :: rest =>
      if endsLine (c :: rest) then multilineTail true text (c :: rest)
      else match escapedChar? c with
        | some escaped => multilineTail false (escaped :: text) rest
        | none => none
  | c :: rest =>
      if folding ∧ (c = ' ' ∨ c = '\t' ∨ c = '\n') then multilineTail true text rest
      else if (c = '\n' ∨ isPlain c) ∧ c ≠ '\\' then multilineTail false (c :: text) rest
      else none
  | [] => none

/-- The text up to the closing single quote. -/
def literalTail (text : List Char) : List Char → Option (String × List Char)
  | '\x27' :: rest => some (String.ofList text.reverse, rest)
  | c :: rest => if isPlain c then literalTail (c :: text) rest else none
  | [] => none

/-- The text up to the closing three single quotes. -/
def multilineLiteralTail (text : List Char) : List Char → Option (String × List Char)
  | '\x27' :: '\x27' :: '\x27' :: '\x27' :: '\x27' :: rest =>
      some (String.ofList ('\x27' :: '\x27' :: text).reverse, rest)
  | '\x27' :: '\x27' :: '\x27' :: '\x27' :: rest =>
      some (String.ofList ('\x27' :: text).reverse, rest)
  | '\x27' :: '\x27' :: '\x27' :: rest => some (String.ofList text.reverse, rest)
  | '\r' :: '\n' :: rest => multilineLiteralTail ('\n' :: text) rest
  | c :: rest =>
      if c = '\n' ∨ isPlain c then multilineLiteralTail (c :: text) rest else none
  | [] => none

/-- What follows a line break at the very beginning, if there is one. -/
def dropFirstBreak : List Char → List Char
  | '\n' :: rest => rest
  | '\r' :: '\n' :: rest => rest
  | cs => cs

/-- The text on one line that begins with a quote, and what follows it. -/
def quotedLine? : List Char → Option (String × List Char)
  | '"' :: rest => basicTail [] rest
  | '\x27' :: rest => literalTail [] rest
  | _ => none

/-- The text that begins with a quote, and what follows it. -/
def quoted? : List Char → Option (String × List Char)
  | '"' :: '"' :: '"' :: rest => multilineTail false [] (dropFirstBreak rest)
  | '\x27' :: '\x27' :: '\x27' :: rest => multilineLiteralTail [] (dropFirstBreak rest)
  | cs => quotedLine? cs

theorem basicTail_rest_lt {text cs rest : List Char} {s : String}
    (h : basicTail text cs = some (s, rest)) : rest.length < cs.length := by
  fun_induction basicTail text cs <;> simp_all <;> omega

theorem multilineTail_rest_lt {folding : Bool} {text cs rest : List Char} {s : String}
    (h : multilineTail folding text cs = some (s, rest)) : rest.length < cs.length := by
  fun_induction multilineTail folding text cs <;> simp_all <;> omega

theorem literalTail_rest_lt {text cs rest : List Char} {s : String}
    (h : literalTail text cs = some (s, rest)) : rest.length < cs.length := by
  fun_induction literalTail text cs <;> simp_all
  omega

theorem multilineLiteralTail_rest_lt {text cs rest : List Char} {s : String}
    (h : multilineLiteralTail text cs = some (s, rest)) : rest.length < cs.length := by
  fun_induction multilineLiteralTail text cs <;> simp_all <;> omega

theorem length_dropFirstBreak_le (cs : List Char) :
    (dropFirstBreak cs).length ≤ cs.length := by
  unfold dropFirstBreak
  split <;> simp
  omega

theorem quotedLine?_rest_lt {cs rest : List Char} {s : String}
    (h : quotedLine? cs = some (s, rest)) : rest.length < cs.length := by
  unfold quotedLine? at h
  split at h
  · exact Nat.lt_succ_of_lt (basicTail_rest_lt h)
  · exact Nat.lt_succ_of_lt (literalTail_rest_lt h)
  · simp at h

/-- What follows a quoted text is behind its first quote. -/
theorem quoted?_rest_lt {cs rest : List Char} {s : String}
    (h : quoted? cs = some (s, rest)) : rest.length < cs.length := by
  unfold quoted? at h
  split at h
  next tail =>
    have h1 := multilineTail_rest_lt h
    have h2 := length_dropFirstBreak_le tail
    simp
    omega
  next tail =>
    have h1 := multilineLiteralTail_rest_lt h
    have h2 := length_dropFirstBreak_le tail
    simp
    omega
  next => exact quotedLine?_rest_lt h

end Toml

end DeclLint
