import DeclLint.Toml.Bare
import DeclLint.Toml.Quoted

/-!
# Reading TOML

A document is read statement by statement.  Arrays and inline tables that are
still open are kept in a list, innermost first; at most 79 may be, and a key has
at most 79 parts.

* `Toml.value?` — the value that some characters begin with;
* `Toml.parse?` — the entries of a document;
* `value?_rest_le` — what follows a value is not before its beginning.
-/

namespace DeclLint

namespace Toml

/-- How deep values may be nested, and how many parts a key may have. -/
def maxNesting : Nat := 79

/-- Spaces and tabs. -/
def isBlankMark (c : Char) : Bool := c == ' ' || c == '\t'

/-- Characters of a key without quotes. -/
def isKeyCharacter (c : Char) : Bool := c.isAlphanum || c == '_' || c == '-'

/-- What follows leading spaces and tabs. -/
def skipBlanks (cs : List Char) : List Char := cs.dropWhile isBlankMark

/-- Whether a character may stand in a comment: the only ASCII control character is
the tab. -/
def inComment (c : Char) : Bool := c == '\t' || (0x20 ≤ c.toNat && c.toNat != 0x7F)

/-- What follows leading blanks, line breaks and comments. -/
def skipTrivia (comment : Bool) : List Char → List Char
  | [] => []
  | '\r' :: '\n' :: rest => skipTrivia false rest
  | c :: rest =>
      if c = '\n' then skipTrivia false rest
      else if comment then
        if inComment c then skipTrivia true rest else c :: rest
      else if c = '#' then skipTrivia true rest
      else if isBlankMark c then skipTrivia false rest
      else c :: rest

/-- What follows the end of a line, with blanks and a comment before it. -/
def lineEnd? (cs : List Char) : Option (List Char) :=
  let rest := match skipBlanks cs with
    | '#' :: rest => rest.dropWhile inComment
    | rest => rest
  match rest with
  | [] => some []
  | '\n' :: rest => some rest
  | '\r' :: '\n' :: rest => some rest
  | _ => none

/-- One part of a key, and what follows it. -/
def keyPart? (cs : List Char) : Option (String × List Char) :=
  match quotedLine? cs with
  | some found => some found
  | none =>
      let name := cs.takeWhile isKeyCharacter
      if name.isEmpty then none else some (String.ofList name, cs.dropWhile isKeyCharacter)

/-- A bare value, and what follows it.  A date may go on after a space. -/
def bareValue? (cs : List Char) : Option (Toml × List Char) :=
  let word := cs.takeWhile isBareCharacter
  let rest := cs.dropWhile isBareCharacter
  if word.isEmpty then none
  else match rest with
    | ' ' :: more =>
        if isDate word ∧ more.head?.any isBareCharacter then
          (spaced? word (more.takeWhile isBareCharacter)).map fun v =>
            (v, more.dropWhile isBareCharacter)
        else (bare? word).map fun v => (v, rest)
    | rest => (bare? word).map fun v => (v, rest)

/-- A value that holds no others, and what follows it. -/
def scalar? (cs : List Char) : Option (Toml × List Char) :=
  match quoted? cs with
  | some (text, rest) => some (.string text, rest)
  | none => bareValue? cs

theorem length_dropWhile_le (p : Char → Bool) (cs : List Char) :
    (cs.dropWhile p).length ≤ cs.length :=
  (List.dropWhile_sublist p).length_le

/-- Less is left where something is taken. -/
theorem length_dropWhile_lt {p : Char → Bool} {cs : List Char}
    (h : (cs.takeWhile p).isEmpty = false) : (cs.dropWhile p).length < cs.length := by
  cases cs with
  | nil => simp at h
  | cons c cs =>
      by_cases hc : p c
      · simpa [hc] using Nat.lt_succ_of_le (length_dropWhile_le p cs)
      · simp [hc] at h

theorem skipTrivia_rest_le (comment : Bool) (cs : List Char) :
    (skipTrivia comment cs).length ≤ cs.length := by
  fun_induction skipTrivia comment cs <;> simp_all <;> omega

/-- The end of a line may be the end of the text. -/
theorem lineEnd?_rest_le {cs rest : List Char} (h : lineEnd? cs = some rest) :
    rest.length ≤ cs.length := by
  have hblank : (skipBlanks cs).length ≤ cs.length := length_dropWhile_le _ _
  unfold lineEnd? at h
  simp only at h
  have hrest : ∀ r : List Char, (match r with
      | [] => some []
      | '\n' :: rest => some rest
      | '\r' :: '\n' :: rest => some rest
      | _ => none) = some rest → rest.length ≤ r.length := by
    intro r hr
    split at hr <;> simp_all
    omega
  have := hrest _ h
  split at this
  next rest' heq =>
    have := length_dropWhile_le inComment rest'
    rw [heq] at hblank
    simp at hblank
    omega
  next => omega

/-- A part of a key has a character at least. -/
theorem keyPart?_rest_lt {cs rest : List Char} {s : String}
    (h : keyPart? cs = some (s, rest)) : rest.length < cs.length := by
  unfold keyPart? at h
  split at h
  next hquoted =>
    obtain rfl := Option.some.inj h
    exact quotedLine?_rest_lt hquoted
  next =>
    simp only at h
    split at h
    · simp at h
    next hne =>
      obtain ⟨-, rfl⟩ : _ ∧ _ = rest := by simpa using h
      exact length_dropWhile_lt (by simpa using hne)

/-- A value without quotes has a character at least. -/
theorem bareValue?_rest_lt {cs rest : List Char} {v : Toml}
    (h : bareValue? cs = some (v, rest)) : rest.length < cs.length := by
  unfold bareValue? at h
  simp only at h
  split at h
  · simp at h
  next hne =>
    have hlt : (cs.dropWhile isBareCharacter).length < cs.length :=
      length_dropWhile_lt (by simpa using hne)
    split at h
    next more heq =>
      split at h
      · obtain ⟨w, -, hw⟩ := Option.map_eq_some_iff.mp h
        obtain ⟨-, rfl⟩ : _ ∧ _ = rest := by simpa using hw
        have := length_dropWhile_le isBareCharacter more
        rw [heq] at hlt
        simp at hlt
        omega
      · obtain ⟨w, -, hw⟩ := Option.map_eq_some_iff.mp h
        obtain ⟨-, rfl⟩ : _ ∧ _ = rest := by simpa using hw
        exact hlt
    next =>
      obtain ⟨w, -, hw⟩ := Option.map_eq_some_iff.mp h
      obtain ⟨-, rfl⟩ : _ ∧ _ = rest := by simpa using hw
      exact hlt

/-- Every scalar takes characters. -/
theorem scalar?_rest_lt {cs rest : List Char} {v : Toml}
    (h : scalar? cs = some (v, rest)) : rest.length < cs.length := by
  unfold scalar? at h
  split at h
  next hquoted =>
    obtain ⟨-, rfl⟩ : _ ∧ _ = rest := by simpa using h
    exact quoted?_rest_lt hquoted
  next => exact bareValue?_rest_lt h

/-- The parts of a key, and what follows it.  `parts` were read already, last
one first. -/
def keyFrom? (parts : List String) (cs : List Char) :
    Option (List String × String × List Char) :=
  match _h : keyPart? (skipBlanks cs) with
  | none => none
  | some (part, rest) =>
      match _hdot : skipBlanks rest with
      | '.' :: more => keyFrom? (part :: parts) more
      | after => if maxNesting ≤ parts.length then none else some (parts.reverse, part, after)
termination_by cs.length
decreasing_by
  have h1 := keyPart?_rest_lt _h
  have h2 := length_dropWhile_le isBlankMark cs
  have h3 := length_dropWhile_le isBlankMark rest
  simp only [skipBlanks] at _hdot h1
  rw [_hdot] at h3
  simp at h3
  omega

/-- A key: the parts before the last, the last, and what follows. -/
def key? (cs : List Char) : Option (List String × String × List Char) := keyFrom? [] cs

/-- So has a key of several parts. -/
theorem keyFrom?_rest_lt {parts path : List String} {key : String} {cs rest : List Char}
    (h : keyFrom? parts cs = some (path, key, rest)) : rest.length < cs.length := by
  fun_induction keyFrom? parts cs with
  | case1 => simp at h
  | case2 parts cs part rest' hpart more hdot ih =>
      have h1 := keyPart?_rest_lt hpart
      have h2 := length_dropWhile_le isBlankMark cs
      have h3 := length_dropWhile_le isBlankMark rest'
      simp only [skipBlanks] at hdot h1
      rw [hdot] at h3
      have := ih h
      simp at h3
      omega
  | case3 => simp at h
  | case4 parts cs part rest' hpart _ _ =>
      have h1 := keyPart?_rest_lt hpart
      have h2 := length_dropWhile_le isBlankMark cs
      have h3 := length_dropWhile_le isBlankMark rest'
      obtain ⟨-, -, rfl⟩ : _ ∧ _ ∧ _ = rest := by simpa using h
      simp only [skipBlanks] at h1 ⊢
      omega

/-- An array or inline table that is still open. -/
inductive Open where
  /-- An array, its items last one first. -/
  | items (done : List Toml)
  /-- An inline table, and the key that the next value belongs to. -/
  | entries (done : Entries) (path : List String) (key : String)

/-- What has to come next inside a value. -/
inductive Expected where
  | value
  /-- An item of the innermost array, or the end of that array. -/
  | item
  | afterValue (v : Toml)

/-- An item to come is at most one step away from a value to come. -/
def Expected.rank : Expected → Nat
  | item => 1
  | _ => 0

/-- Read the key of an inline table up to its equals sign. -/
def inlineKey? (done : Entries) (cs : List Char) : Option (Open × List Char) :=
  match key? cs with
  | some (path, key, '=' :: rest) => some (.entries done path key, skipBlanks rest)
  | _ => none

/-- So has a key in an inline table. -/
theorem inlineKey?_rest_lt {done : Entries} {cs rest : List Char} {o : Open}
    (h : inlineKey? done cs = some (o, rest)) : rest.length < cs.length := by
  unfold inlineKey? at h
  split at h
  next path key after hkey =>
    obtain ⟨-, rfl⟩ : _ ∧ _ = rest := by simpa using h
    have h1 := keyFrom?_rest_lt hkey
    have h2 := length_dropWhile_le isBlankMark after
    simp only [skipBlanks]
    simp at h1
    omega
  next => simp at h

theorem skipTrivia_cons_lt {comment : Bool} {c : Char} {cs rest : List Char}
    (h : skipTrivia comment cs = c :: rest) : rest.length < cs.length := by
  have := skipTrivia_rest_le comment cs
  rw [h] at this
  exact this

theorem skipBlanks_cons_lt {c : Char} {cs rest : List Char}
    (h : skipBlanks cs = c :: rest) : rest.length < cs.length := by
  have := length_dropWhile_le isBlankMark cs
  simp only [skipBlanks] at h
  rw [h] at this
  exact this

theorem inlineKey?_skipBlanks_lt {done : Entries} {cs rest : List Char} {o : Open}
    (h : inlineKey? done (skipBlanks cs) = some (o, rest)) : rest.length < cs.length :=
  Nat.lt_of_lt_of_le (inlineKey?_rest_lt h) (length_dropWhile_le _ _)

/-- Read on inside a value; `containers` holds what is open. -/
def readValue (expected : Expected) (containers : List Open) (cs : List Char) :
    Option (Toml × List Char) :=
  match expected, containers, cs with
  | .afterValue v, [], cs => some (v, cs)
  | .afterValue v, .items done :: outer, cs =>
      match _h : skipTrivia false cs with
      | ',' :: rest => readValue .item (.items (v :: done) :: outer) rest
      | ']' :: rest => readValue (.afterValue (.array (v :: done).reverse)) outer rest
      | _ => none
  | .afterValue v, .entries done path key :: outer, cs =>
      match addKey path key v .headed done with
      | none => none
      | some (_, done) =>
          match _h : skipBlanks cs with
          | ',' :: rest =>
              match _hkey : inlineKey? done rest with
              | some (container, rest) => readValue .value (container :: outer) rest
              | none => none
          | '\x7d' :: rest => readValue (.afterValue (.table .inline done)) outer rest
          | _ => none
  | .item, .items done :: outer, cs =>
      match _h : skipTrivia false cs with
      | ']' :: rest => readValue (.afterValue (.array done.reverse)) outer rest
      | rest => readValue .value (.items done :: outer) rest
  | .item, _, _ => none
  | .value, containers, '[' :: rest =>
      if maxNesting ≤ containers.length then none
      else readValue .item (.items [] :: containers) rest
  | .value, containers, '\x7b' :: rest =>
      if maxNesting ≤ containers.length then none
      else match _hblank : skipBlanks rest with
        | '\x7d' :: rest => readValue (.afterValue (.table .inline [])) containers rest
        | rest =>
            match _hkey : inlineKey? [] rest with
            | some (container, rest) => readValue .value (container :: containers) rest
            | none => none
  | .value, containers, cs =>
      match _hscalar : scalar? cs with
      | some (v, rest) => readValue (.afterValue v) containers rest
      | none => none
termination_by (cs.length, expected.rank)
decreasing_by
  · exact .left _ _ (skipTrivia_cons_lt _h)
  · exact .left _ _ (skipTrivia_cons_lt _h)
  · exact .left _ _ (Nat.lt_trans (inlineKey?_rest_lt _hkey) (skipBlanks_cons_lt _h))
  · exact .left _ _ (skipBlanks_cons_lt _h)
  · exact .left _ _ (skipTrivia_cons_lt _h)
  · exact .right' _ (_h ▸ skipTrivia_rest_le false cs) Nat.one_pos
  · exact .left _ _ (Nat.lt_succ_self _)
  · exact .left _ _ (Nat.lt_succ_of_lt (skipBlanks_cons_lt _hblank))
  · exact .left _ _ (Nat.lt_succ_of_lt (inlineKey?_skipBlanks_lt (_hblank ▸ _hkey)))
  · exact .left _ _ (scalar?_rest_lt _hscalar)

/-- The value that some characters begin with, and what follows it. -/
def value? (cs : List Char) : Option (Toml × List Char) := readValue .value [] cs

/-- A value leaves no more than there was, as every round of the loop does. -/
theorem readValue_rest_le {expected : Expected} {containers : List Open}
    {cs rest : List Char} {v : Toml}
    (h : readValue expected containers cs = some (v, rest)) : rest.length ≤ cs.length := by
  fun_induction readValue expected containers cs with
  | case1 => simp_all
  | case2 _ _ _ _ _ hskip ih => exact Nat.le_trans (ih h) (Nat.le_of_lt (skipTrivia_cons_lt hskip))
  | case3 _ _ _ _ _ hskip ih => exact Nat.le_trans (ih h) (Nat.le_of_lt (skipTrivia_cons_lt hskip))
  | case6 _ _ _ _ _ _ _ _ _ _ hskip _ _ hkey ih =>
      exact Nat.le_trans (ih h)
        (Nat.le_of_lt (Nat.lt_trans (inlineKey?_rest_lt hkey) (skipBlanks_cons_lt hskip)))
  | case8 _ _ _ _ _ _ _ _ _ _ hskip ih =>
      exact Nat.le_trans (ih h) (Nat.le_of_lt (skipBlanks_cons_lt hskip))
  | case10 _ _ _ _ hskip ih =>
      simp only [List.unattach_reverse, List.unattach_attach] at ih
      exact Nat.le_trans (ih h) (Nat.le_of_lt (skipTrivia_cons_lt hskip))
  | case11 _ _ cs _ ih => exact Nat.le_trans (ih h) (skipTrivia_rest_le false cs)
  | case14 _ _ _ ih => exact Nat.le_succ_of_le (ih h)
  | case16 _ _ _ _ hskip ih =>
      exact Nat.le_trans (ih h) (Nat.le_of_lt (Nat.lt_succ_of_lt (skipBlanks_cons_lt hskip)))
  | case17 _ _ _ _ _ _ hkey ih =>
      exact Nat.le_trans (ih h) (Nat.le_of_lt (Nat.lt_succ_of_lt (inlineKey?_skipBlanks_lt hkey)))
  | case19 _ _ _ _ _ _ hscalar ih =>
      exact Nat.le_trans (ih h) (Nat.le_of_lt (scalar?_rest_lt hscalar))
  | _ => simp at h

/-- What follows a value is not before its beginning. -/
theorem value?_rest_le {cs rest : List Char} {v : Toml} (h : value? cs = some (v, rest)) :
    rest.length ≤ cs.length :=
  readValue_rest_le h

/-- The statement that some characters begin with, and what follows the end of
its last line. -/
def statement? (cs : List Char) : Option (TomlStatement × List Char) :=
  match cs with
  | '[' :: '[' :: rest =>
      match key? rest with
      | some (path, key, ']' :: ']' :: rest) =>
          (lineEnd? rest).map fun rest => (.elementHeader path key, rest)
      | _ => none
  | '[' :: rest =>
      match key? rest with
      | some (path, key, ']' :: rest) => (lineEnd? rest).map fun rest => (.header path key, rest)
      | _ => none
  | cs =>
      match key? cs with
      | some (path, key, '=' :: rest) => do
          let (v, rest) ← value? (skipBlanks rest)
          let rest ← lineEnd? rest
          pure (.keyValue path key v, rest)
      | _ => none

/-- A statement has a character at least, be it the line break of an empty line. -/
theorem statement?_rest_lt {cs rest : List Char} {s : TomlStatement}
    (h : statement? cs = some (s, rest)) : rest.length < cs.length := by
  unfold statement? at h
  split at h
  · split at h
    next path key after hkey =>
      obtain ⟨more, hline, heq⟩ := Option.map_eq_some_iff.mp h
      obtain ⟨-, rfl⟩ : _ ∧ _ = rest := by simpa using heq
      have h1 := keyFrom?_rest_lt hkey
      have h2 := lineEnd?_rest_le hline
      simp at h1 ⊢
      omega
    next => simp at h
  · split at h
    next path key after hkey =>
      obtain ⟨more, hline, heq⟩ := Option.map_eq_some_iff.mp h
      obtain ⟨-, rfl⟩ : _ ∧ _ = rest := by simpa using heq
      have h1 := keyFrom?_rest_lt hkey
      have h2 := lineEnd?_rest_le hline
      simp at h1 ⊢
      omega
    next => simp at h
  · split at h
    next path key after hkey =>
      simp only [Option.bind_eq_bind, Option.bind_eq_some_iff] at h
      obtain ⟨⟨v, more⟩, hvalue, last, hline, heq⟩ := h
      obtain ⟨-, rfl⟩ : _ ∧ _ = rest := by simpa using heq
      have h1 := keyFrom?_rest_lt hkey
      have h2 := value?_rest_le hvalue
      have h3 := length_dropWhile_le isBlankMark after
      have h4 := lineEnd?_rest_le hline
      simp only [skipBlanks] at h2
      simp at h1 h4
      omega
    next => simp at h

/-- Read statements to the end and add them to those already `done`, last one
first. -/
def statementsFrom? (done : List TomlStatement) (cs : List Char) :
    Option (List TomlStatement) :=
  match _h : skipTrivia false cs with
  | [] => some done.reverse
  | c :: rest =>
      match _hstatement : statement? (c :: rest) with
      | some (s, rest) => statementsFrom? (s :: done) rest
      | none => none
termination_by cs.length
decreasing_by
  have h1 := statement?_rest_lt _hstatement
  have h2 := skipTrivia_rest_le false cs
  rw [_h] at h2
  omega

/-- The characters of a document, without a byte order mark. -/
def dropByteOrderMark : List Char → List Char
  | '\ufeff' :: rest => rest
  | cs => cs

/-- The entries of the document that a text spells. -/
def parse? (text : String) : Option Entries := do
  let statements ← statementsFrom? [] (dropByteOrderMark text.toList)
  ofStatements? statements

end Toml

end DeclLint
