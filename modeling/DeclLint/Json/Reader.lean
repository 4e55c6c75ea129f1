import DeclLint.Json.Basic

/-!
# Reading JSON

The text is cut into tokens, and the tokens are assembled into a value with the
containers still open kept in a list, innermost first; so nesting has no limit.
Only the standard form is read: no comments, no commas too many, nothing but
space, tab, line feed and carriage return around tokens.

* `JsonValue.parse?` — the value that a text spells;
* `stringTail_rest_lt` — the end of a string is behind its beginning.
-/

namespace DeclLint

/-- A token of JSON.  Values that hold no others are tokens of their own. -/
inductive JsonToken where
  | openBracket
  | closeBracket
  | openBrace
  | closeBrace
  | colon
  | comma
  | scalar (value : JsonValue)

namespace JsonValue

/-- The value of a hexadecimal digit, in either case. -/
def hexValue? (c : Char) : Option Nat :=
  if '0' ≤ c ∧ c ≤ '9' then some (c.toNat - '0'.toNat)
  else if 'a' ≤ c ∧ c ≤ 'f' then some (c.toNat - 'a'.toNat + 10)
  else if 'A' ≤ c ∧ c ≤ 'F' then some (c.toNat - 'A'.toNat + 10)
  else none

/-- The value of four hexadecimal digits. -/
def hexUnit? (a b c d : Char) : Option Nat := do
  return (((← hexValue? a) * 16 + (← hexValue? b)) * 16 + (← hexValue? c)) * 16 + (← hexValue? d)

/-- The character that a letter after a backslash stands for. -/
def escapedChar? (c : Char) : Option Char :=
  if c = '"' ∨ c = '\\' ∨ c = '/' then some c
  else if c = 'b' then some '\x08'
  else if c = 'f' then some '\x0c'
  else if c = 'n' then some '\n'
  else if c = 'r' then some '\r'
  else if c = 't' then some '\t'
  else none

/-- Whether a 16-bit unit is the first half of a surrogate pair. -/
def isHighSurrogate (unit : Nat) : Bool := 0xD800 ≤ unit && unit < 0xDC00

/-- Whether a 16-bit unit is the second half of a surrogate pair. -/
def isLowSurrogate (unit : Nat) : Bool := 0xDC00 ≤ unit && unit < 0xE000

/-- The code point of a surrogate pair. -/
def pairedCodePoint (high low : Nat) : Nat := 0x10000 + (high - 0xD800) * 1024 + (low - 0xDC00)

/-- Add a character to the text read so far, last character first.  A first
half of a pair that is still waiting can no longer be completed. -/
def pushChar (text : Option (List Char)) (high : Option Nat) (c : Char) : Option (List Char) :=
  if high.isSome then none else text.map (c :: ·)

/-- The text of a string after its opening quote, and what follows the closing
one.  `high` is a first half of a surrogate pair just read. -/
def stringTail (text : Option (List Char)) (high : Option Nat) :
    List Char → Option (JsonText × List Char)
  | '"' :: rest =>
      some (if high.isSome then none else text.map fun cs => String.ofList cs.reverse, rest)
  | '\\' :: 'u' :: a :: b :: c :: d :: rest =>
      match hexUnit? a b c d with
      | none => none
      | some unit =>
          match high with
          | some first =>
              if isLowSurrogate unit then
                stringTail (text.map (Char.ofNat (pairedCodePoint first unit) :: ·)) none rest
              else stringTail none none rest
          | none =>
              if isHighSurrogate unit then stringTail text (some unit) rest
              else if isLowSurrogate unit then stringTail none none rest
              else stringTail (text.map (Char.ofNat unit :: ·)) none rest
  | '\\' :: c :: rest =>
      match escapedChar? c with
      | some escaped => stringTail (pushChar text high escaped) none rest
      | none => none
  | c :: rest =>
      if c.toNat < 0x20 ∨ c = '\\' then none else stringTail (pushChar text high c) none rest
  | [] => none

/-- The end of a string is behind its beginning. -/
theorem stringTail_rest_lt {text : Option (List Char)} {high : Option Nat}
    {cs rest : List Char} {found : JsonText}
    (h : stringTail text high cs = some (found, rest)) : rest.length < cs.length := by
  fun_induction stringTail text high cs <;> simp_all <;> omega

/-- Leading digits, at least one, and what follows them. -/
def digits? (cs : List Char) : Option (List Char × List Char) :=
  let digits := cs.takeWhile Char.isDigit
  if digits.isEmpty then none else some (digits, cs.dropWhile Char.isDigit)

/-- The whole part of a number: a zero, or digits that do not begin with one. -/
def wholePart? (cs : List Char) : Option (List Char × List Char) :=
  match cs with
  | '0' :: rest => some (['0'], rest)
  | cs => digits? cs

/-- The fraction of a number, if it has one. -/
def fraction? (cs : List Char) : Option (List Char × List Char) :=
  match cs with
  | '.' :: rest => (digits? rest).map fun p => ('.' :: p.1, p.2)
  | cs => some ([], cs)

/-- The exponent of a number, if it has one. -/
def exponent? (cs : List Char) : Option (List Char × List Char) :=
  match cs with
  | e :: rest =>
      if e = 'e' ∨ e = 'E' then
        match rest with
        | sign :: more =>
            if sign = '+' ∨ sign = '-' then
              (digits? more).map fun p => (e :: sign :: p.1, p.2)
            else (digits? rest).map fun p => (e :: p.1, p.2)
        | [] => none
      else some ([], cs)
  | [] => some ([], cs)

/-- The spelling of a number, and what follows it. -/
def number? (cs : List Char) : Option (List Char × List Char) := do
  let sign := cs.takeWhile (· = '-')
  let (whole, rest) ← wholePart? (cs.dropWhile (· = '-'))
  let (fraction, rest) ← fraction? rest
  let (exponent, rest) ← exponent? rest
  if 1 < sign.length then none else pure (sign ++ whole ++ fraction ++ exponent, rest)

/-- The value that a word spells. -/
def word? (cs : List Char) : Option JsonValue :=
  if cs = ['t', 'r', 'u', 'e'] then some (.bool true)
  else if cs = ['f', 'a', 'l', 's', 'e'] then some (.bool false)
  else if cs = ['n', 'u', 'l', 'l'] then some .null
  else none

/-- Characters between tokens. -/
def isSpace (c : Char) : Bool := c == ' ' || c == '\t' || c == '\n' || c == '\r'

/-- The token that begins with a character which is no space, and what follows
it. -/
def token? (c : Char) (cs : List Char) : Option (JsonToken × List Char) :=
  if c = '[' then some (.openBracket, cs)
  else if c = ']' then some (.closeBracket, cs)
  else if c = '\x7b' then some (.openBrace, cs)
  else if c = '\x7d' then some (.closeBrace, cs)
  else if c = ':' then some (.colon, cs)
  else if c = ',' then some (.comma, cs)
  else if c = '"' then (stringTail (some []) none cs).map fun p => (.scalar (.string p.1), p.2)
  else if c = '-' ∨ c.isDigit then
    (number? (c :: cs)).map fun p => (.scalar (.number (String.ofList p.1)), p.2)
  else
    (word? (c :: cs.takeWhile Char.isLower)).map fun v => (.scalar v, cs.dropWhile Char.isLower)

theorem length_dropWhile_le (p : Char → Bool) (cs : List Char) :
    (cs.dropWhile p).length ≤ cs.length :=
  (List.dropWhile_sublist p).length_le

/-- Digits are at least one, so less is left than there was. -/
theorem digits?_rest_lt {cs digits rest : List Char} (h : digits? cs = some (digits, rest)) :
    rest.length < cs.length := by
  unfold digits? at h
  simp only at h
  split at h
  · simp at h
  next hne =>
    obtain ⟨rfl, rfl⟩ : _ = digits ∧ _ = rest := by simpa using h
    cases cs with
    | nil => simp at hne
    | cons c cs =>
        by_cases hc : c.isDigit
        · simpa [hc] using Nat.lt_succ_of_le (length_dropWhile_le Char.isDigit cs)
        · simp [hc] at hne

theorem wholePart?_rest_lt {cs whole rest : List Char}
    (h : wholePart? cs = some (whole, rest)) : rest.length < cs.length := by
  unfold wholePart? at h
  split at h
  · obtain ⟨rfl, rfl⟩ : _ = whole ∧ _ = rest := by simpa using h
    simp
  · exact digits?_rest_lt h

/-- A fraction may be missing, and then nothing is passed. -/
theorem fraction?_rest_le {cs part rest : List Char} (h : fraction? cs = some (part, rest)) :
    rest.length ≤ cs.length := by
  unfold fraction? at h
  split at h
  · obtain ⟨p, hp, heq⟩ := Option.map_eq_some_iff.mp h
    obtain ⟨rfl, rfl⟩ : _ = part ∧ p.2 = rest := by simpa using heq
    have := digits?_rest_lt hp
    simp
    omega
  · obtain ⟨-, rfl⟩ : part = [] ∧ cs = rest := by simpa using h
    exact Nat.le_refl _

/-- So may an exponent. -/
theorem exponent?_rest_le {cs part rest : List Char} (h : exponent? cs = some (part, rest)) :
    rest.length ≤ cs.length := by
  unfold exponent? at h
  split at h
  · split at h
    · split at h
      · split at h
        · obtain ⟨p, hp, heq⟩ := Option.map_eq_some_iff.mp h
          obtain ⟨rfl, rfl⟩ : _ = part ∧ p.2 = rest := by simpa using heq
          have := digits?_rest_lt hp
          simp
          omega
        · obtain ⟨p, hp, heq⟩ := Option.map_eq_some_iff.mp h
          obtain ⟨rfl, rfl⟩ : _ = part ∧ p.2 = rest := by simpa using heq
          have := digits?_rest_lt hp
          simp at this ⊢
          omega
      · simp at h
    · obtain ⟨-, rfl⟩ : part = [] ∧ _ = rest := by simpa using h
      exact Nat.le_refl _
  · obtain ⟨-, rfl⟩ : part = [] ∧ rest = [] := by simpa using h
    exact Nat.le_refl _

/-- A number has a whole part, so less is left than there was. -/
theorem number?_rest_lt {cs literal rest : List Char}
    (h : number? cs = some (literal, rest)) : rest.length < cs.length := by
  unfold number? at h
  simp only [Option.bind_eq_bind, Option.bind_eq_some_iff] at h
  obtain ⟨⟨whole, afterWhole⟩, hwhole, ⟨fraction, afterFraction⟩, hfraction,
    ⟨exponent, afterExponent⟩, hexponent, h⟩ := h
  have h1 := wholePart?_rest_lt hwhole
  have h2 := fraction?_rest_le hfraction
  have h3 := exponent?_rest_le hexponent
  have h4 := length_dropWhile_le (fun c => decide (c = '-')) cs
  simp only at h2 h3
  split at h
  · simp at h
  · obtain ⟨-, rfl⟩ : _ = literal ∧ afterExponent = rest := by simpa using h
    omega

/-- A token leaves at most what followed its first character. -/
theorem token?_rest_le {c : Char} {cs rest : List Char} {t : JsonToken}
    (h : token? c cs = some (t, rest)) : rest.length ≤ cs.length := by
  unfold token? at h
  iterate 6
    split at h
    · obtain ⟨-, rfl⟩ : _ ∧ cs = rest := by simpa using h
      exact Nat.le_refl _
  split at h
  · obtain ⟨p, hp, heq⟩ := Option.map_eq_some_iff.mp h
    obtain ⟨-, rfl⟩ : _ ∧ p.2 = rest := by simpa using heq
    exact Nat.le_of_lt (stringTail_rest_lt hp)
  split at h
  · obtain ⟨p, hp, heq⟩ := Option.map_eq_some_iff.mp h
    obtain ⟨-, rfl⟩ : _ ∧ p.2 = rest := by simpa using heq
    have := number?_rest_lt hp
    simp at this
    omega
  · obtain ⟨v, hv, heq⟩ := Option.map_eq_some_iff.mp h
    obtain ⟨-, rfl⟩ : _ ∧ _ = rest := by simpa using heq
    exact length_dropWhile_le Char.isLower cs

/-- Add the tokens of a text to those already `done`, last token first. -/
def tokensFrom? (done : List JsonToken) (cs : List Char) : Option (List JsonToken) :=
  match cs with
  | [] => some done.reverse
  | c :: cs =>
      if isSpace c then tokensFrom? done cs
      else match _h : token? c cs with
        | some (t, rest) => tokensFrom? (t :: done) rest
        | none => none
termination_by cs.length
decreasing_by
  · simp
  · have := token?_rest_le _h
    simp
    omega

/-- A container still open. -/
inductive Open where
  | items (done : List JsonValue)
  | members (done : List (JsonText × JsonValue))
  | member (done : List (JsonText × JsonValue)) (key : JsonText)

/-- What has to come next. -/
inductive Expected where
  | value
  | firstItem
  | firstKey
  | key
  | afterValue (v : JsonValue)

/-- Assemble tokens into one value; `containers` holds what is open. -/
def assemble : Expected → List Open → List JsonToken → Option JsonValue
  | .afterValue v, [], [] => some v
  | .afterValue v, .items done :: outer, .comma :: ts =>
      assemble .value (.items (v :: done) :: outer) ts
  | .afterValue v, .items done :: outer, .closeBracket :: ts =>
      assemble (.afterValue (.array (v :: done).reverse)) outer ts
  | .afterValue v, .member done key :: outer, .comma :: ts =>
      assemble .key (.members ((key, v) :: done) :: outer) ts
  | .afterValue v, .member done key :: outer, .closeBrace :: ts =>
      assemble (.afterValue (.object ((key, v) :: done).reverse)) outer ts
  | .firstItem, .items _ :: outer, .closeBracket :: ts =>
      assemble (.afterValue (.array [])) outer ts
  | .firstKey, .members _ :: outer, .closeBrace :: ts =>
      assemble (.afterValue (.object [])) outer ts
  | .firstKey, .members done :: outer, .scalar (.string key) :: .colon :: ts =>
      assemble .value (.member done key :: outer) ts
  | .key, .members done :: outer, .scalar (.string key) :: .colon :: ts =>
      assemble .value (.member done key :: outer) ts
  | .value, containers, .scalar v :: ts => assemble (.afterValue v) containers ts
  | .value, containers, .openBracket :: ts => assemble .firstItem (.items [] :: containers) ts
  | .value, containers, .openBrace :: ts => assemble .firstKey (.members [] :: containers) ts
  | .firstItem, containers, .scalar v :: ts => assemble (.afterValue v) containers ts
  | .firstItem, containers, .openBracket :: ts => assemble .firstItem (.items [] :: containers) ts
  | .firstItem, containers, .openBrace :: ts => assemble .firstKey (.members [] :: containers) ts
  | _, _, _ => none

/-- The value that a text spells. -/
def parse? (text : String) : Option JsonValue := do
  let tokens ← tokensFrom? [] text.toList
  assemble .value [] tokens

end JsonValue

end DeclLint
