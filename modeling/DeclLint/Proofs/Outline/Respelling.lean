import DeclLint.Source.Outline

/-!
# What the outline reader sees of a token

Whether it looks ahead, behind or at the next token, the outline reader sees of tokens
what marks they are, which words they are and which of them separate lines; and in no list
of words that it looks for is there only one of `let` and `var`.  So its way through the
tokens stays the same if they are put down in another way that keeps all of that
(`Token.Respells`), wherever in a text they stand then.

* `Outline.headerContinues_map`, `Outline.variableContinues_map` — what is looked for
  around a line break;
* `Outline.passHeader_map`, `Outline.passVariable_map` — how far a header or a variable
  goes.
-/

namespace DeclLint

/-- A way to put down tokens that keeps what they are, up to `let` and `var`. -/
def Token.Respells (f : Token → Token) : Prop :=
  ∀ t : Token, (f t).lexeme = t.lexeme ∨ t.lexeme = .word "let" ∧ (f t).lexeme = .word "var"

namespace Token.Respells

variable {f : Token → Token} (h : Token.Respells f)
include h

theorem mark?_eq (t : Token) : (f t).mark? = t.mark? := by
  unfold mark?
  rcases h t with hsame | ⟨hlet, hvar⟩
  · rw [hsame]
  · rw [hlet, hvar]

theorem isMark_eq (c : Char) (t : Token) : (f t).isMark c = t.isMark c := by
  simp only [isMark, h.mark?_eq]

theorem isMarkOf_eq (marks : List Char) (t : Token) : (f t).isMarkOf marks = t.isMarkOf marks := by
  simp only [isMarkOf, h.mark?_eq]

theorem isWord_eq (t : Token) : (f t).isWord = t.isWord := by
  unfold isWord word?
  rcases h t with hsame | ⟨hlet, hvar⟩
  · rw [hsame]
  · rw [hlet, hvar]
    rfl

/-- Lists of words with both words or with neither do not tell them apart. -/
theorem isWordOf_eq {words : List String} (hwords : words.contains "let" = words.contains "var")
    (t : Token) : (f t).isWordOf words = t.isWordOf words := by
  unfold isWordOf word?
  rcases h t with hsame | ⟨hlet, hvar⟩
  · rw [hsame]
  · rw [hlet, hvar]
    exact hwords.symm

/-- Lexemes that are no words stay. -/
theorem lexeme_eq_iff {l : Lexeme} (hl : ∀ text, l ≠ .word text) (t : Token) :
    (f t).lexeme = l ↔ t.lexeme = l := by
  rcases h t with hsame | ⟨hlet, hvar⟩
  · rw [hsame]
  · rw [hlet, hvar]
    exact ⟨fun heq => absurd heq.symm (hl _), fun heq => absurd heq.symm (hl _)⟩

theorem isLineBreak_eq (t : Token) : (f t).isLineBreak = t.isLineBreak := by
  unfold isLineBreak
  rw [Bool.eq_iff_iff, beq_iff_eq, beq_iff_eq]
  exact h.lexeme_eq_iff (by simp) t

end Token.Respells

namespace Outline

/-- A place among tokens that are put down in another way. -/
def Cursor.map (f : Token → Token) (c : Cursor) : Cursor := ⟨c.past.map f, c.rest.map f⟩

/-- The end of a header among tokens that are put down in another way. -/
def HeaderEnd.map (f : Token → Token) : HeaderEnd → HeaderEnd
  | body past brace rest => body (past.map f) (f brace) (rest.map f)
  | bare past rest => bare (past.map f) (rest.map f)

/-- The end of a variable among tokens that are put down in another way. -/
def VariableEnd.map (f : Token → Token) : VariableEnd → VariableEnd
  | accessors past brace rest => accessors (past.map f) (f brace) (rest.map f)
  | bare past rest => bare (past.map f) (rest.map f)

variable {f : Token → Token} (h : Token.Respells f)
include h

theorem significant_map (ts : List Token) :
    significant (ts.map f) = (significant ts).map f := by
  have hseparates : Token.isLineBreak ∘ f = Token.isLineBreak := funext h.isLineBreak_eq
  unfold significant
  rw [List.dropWhile_map, hseparates]

theorem significant?_map (ts : List Token) :
    significant? (ts.map f) = (significant? ts).map f := by
  unfold significant?
  rw [significant_map h]
  exact List.head?_map

/-- A list that has both words for a variable or neither does not tell them apart. -/
theorem nextWordIsOf_map {words : List String}
    (hwords : words.contains "let" = words.contains "var") (rest : List Token) :
    nextWordIsOf words (rest.map f) = nextWordIsOf words rest := by
  unfold nextWordIsOf
  rw [significant?_map h]
  cases significant? rest with
  | none => rfl
  | some t => exact h.isWordOf_eq hwords t

/-- Around a line break, a header goes on where it did. -/
theorem headerContinues_map (past rest : List Token) :
    headerContinues (past.map f) (rest.map f) = headerContinues past rest := by
  have hwords : ∀ t : Token, (f t).isWordOf headerContinuers = t.isWordOf headerContinuers :=
    h.isWordOf_eq rfl
  unfold headerContinues
  rw [significant_map h, significant?_map h]
  cases significant past with
  | nil => cases significant? rest <;> simp [hwords, h.isMarkOf_eq]
  | cons t earlier =>
      cases significant? rest <;> cases earlier <;>
        simp [hwords, h.isMarkOf_eq, h.isMark_eq]

/-- Around a line break, a variable goes on where it did. -/
theorem variableContinues_map (assigned : Bool) (past rest : List Token) :
    variableContinues assigned (past.map f) (rest.map f) =
      variableContinues assigned past rest := by
  have hquery : ∀ t : Token, ((f t).lexeme == .query) = (t.lexeme == .query) := by
    intro t
    rw [Bool.eq_iff_iff, beq_iff_eq, beq_iff_eq]
    exact h.lexeme_eq_iff (by simp) t
  unfold variableContinues
  rw [significant?_map h, significant?_map h]
  cases significant? past <;> cases significant? rest <;>
    simp [hquery, h.isMarkOf_eq, h.isMark_eq]

/-- A group ends at the same token, however its words are spelled. -/
theorem skipGroup_map (depth : Nat) (past rest : List Token) :
    skipGroup depth (past.map f) (rest.map f) = (skipGroup depth past rest).map f := by
  induction rest generalizing depth past with
  | nil => rfl
  | cons t ts ih =>
      simp only [List.map_cons, skipGroup, h.isMarkOf_eq]
      split
      · exact ih (depth + 1) (t :: past)
      split
      · split
        · rfl
        · exact ih (depth - 1) (t :: past)
      · exact ih depth (t :: past)

/-- Arguments do not depend on how the word of a variable is spelled. -/
theorem skipArguments_map (past rest : List Token) :
    skipArguments (past.map f) (rest.map f) = (skipArguments past rest).map f := by
  have hopen : (rest.map f).head?.any (Token.isMark '(') =
      rest.head?.any (Token.isMark '(') := by
    cases rest <;> simp [h.isMark_eq]
  unfold skipArguments
  rw [hopen]
  split
  · exact skipGroup_map h 0 past rest
  · rfl

/-- Nor do attributes. -/
theorem skipAttribute_map (past rest : List Token) :
    skipAttribute (past.map f) (rest.map f) = (skipAttribute past rest).map f := by
  cases rest with
  | nil => rfl
  | cons t ts =>
      simp only [List.map_cons, skipAttribute, h.isWord_eq]
      split
      · exact skipArguments_map h (t :: past) ts
      · rfl

/-- Nor does the suffix that names the setter. -/
theorem setterSuffix?_map (past rest : List Token) :
    setterSuffix? (past.map f) (rest.map f) = (setterSuffix? past rest).map (Cursor.map f) := by
  have hset : ∀ t : Token, (f t).isWordOf ["set"] = t.isWordOf ["set"] := h.isWordOf_eq rfl
  match rest with
  | [] | [_] | [_, _] => rfl
  | a :: b :: d :: ts =>
      simp only [List.map_cons, setterSuffix?, h.isMark_eq, hset]
      split <;> rfl

/-- **Headers.**  A header ends where it did. -/
theorem passHeader_map (depth : Nat) (past rest : List Token) :
    passHeader depth (past.map f) (rest.map f) = (passHeader depth past rest).map f := by
  induction rest generalizing depth past with
  | nil => rfl
  | cons t ts ih =>
      simp only [List.map_cons, passHeader, h.isMark_eq, h.isMarkOf_eq, h.isLineBreak_eq,
        headerContinues_map h]
      split
      · rfl
      split
      · exact ih (depth + 1) (t :: past)
      split
      · exact ih (depth - 1) (t :: past)
      split
      · split
        · rfl
        · exact ih (depth - 1) (t :: past)
      split
      · rfl
      split
      · rfl
      · exact ih depth (t :: past)

/-- **Variables.**  A variable ends where it did. -/
theorem passVariable_map (depth : Nat) (assigned : Bool) (past rest : List Token) :
    passVariable depth assigned (past.map f) (rest.map f) =
      (passVariable depth assigned past rest).map f := by
  have hassign : ∀ t : Token, (f t).lexeme = .assign ↔ t.lexeme = .assign :=
    h.lexeme_eq_iff (by simp)
  have hobserver : ∀ ts : List Token,
      nextWordIsOf observerWords (ts.map f) = nextWordIsOf observerWords ts :=
    nextWordIsOf_map h rfl
  induction rest generalizing depth assigned past with
  | nil => rfl
  | cons t ts ih =>
      simp only [List.map_cons, passVariable, h.isMark_eq, h.isMarkOf_eq, h.isLineBreak_eq,
        variableContinues_map h, hassign, hobserver]
      split
      · rfl
      split
      · exact ih (depth + 1) assigned (t :: past)
      split
      · split
        · rfl
        · exact ih (depth - 1) assigned (t :: past)
      split
      · rfl
      split
      · exact ih depth true (t :: past)
      split
      · rfl
      · exact ih depth assigned (t :: past)

theorem startsType_map (past rest : List Token) :
    startsType (past.map f) (rest.map f) = startsType past rest := by
  unfold startsType
  rw [significant?_map h, significant?_map h]
  cases significant? past <;> cases significant? rest <;> simp [h.isMarkOf_eq, h.isWord_eq]

theorem startsFunction_map (past : List Token) :
    startsFunction (past.map f) = startsFunction past := by
  unfold startsFunction
  rw [significant?_map h]
  cases significant? past <;> simp [h.isMark_eq]

theorem isBindingPattern_map (past : List Token) :
    isBindingPattern (past.map f) = isBindingPattern past := by
  have hwords : ∀ t : Token, (f t).isWordOf bindingContexts = t.isWordOf bindingContexts :=
    h.isWordOf_eq (by decide)
  unfold isBindingPattern
  rw [significant?_map h]
  cases significant? past <;> simp [hwords, h.isMarkOf_eq]

end Outline

end DeclLint
