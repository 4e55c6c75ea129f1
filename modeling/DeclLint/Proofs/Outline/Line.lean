import DeclLint.Proofs.Outline.Nesting

/-!
# Declarations on lines of their own

The outline reader finds out where a declaration begins and where a variable ends by
looking at the tokens on both sides of a line break.  Where every declaration has a
line of its own, what it finds there never makes it go on: the line before ends with a
lexeme that finishes a declaration, and the next one begins with a word or closes a
body.  So each token of such a line is read as what it was written for.

* `Outline.Finished`, `Outline.EndsLine` — the two sides of a line break;
* `Outline.passVariable_of_ends` — a variable ends with its line;
* `Outline.run_variable`, `Outline.run_type`, `Outline.run_function`,
  `Outline.run_close` — what the reader makes of the parts of a declaration.
-/

namespace DeclLint

/-- Marks that a declaration may be written behind. -/
def finishingMarks : List Char := [')', ']', '?', '{', '}']

/-- Lexemes that a declaration may be written behind: with none of them a line goes on
or a pattern begins. -/
def Lexeme.Finishes : Lexeme → Prop
  | .word text => text ∉ Outline.bindingContexts
  | .mark c => c ∈ finishingMarks
  | _ => False

namespace Outline

/-- A place that a declaration may be written at. -/
def Finished (past : List Token) : Prop := ∀ t ∈ significant? past, t.lexeme.Finishes

/-- What may follow the line of a variable: nothing, or a line break and nothing on the
next line that the variable would go on with. -/
def EndsLine (more : List Token) : Prop :=
  (∀ t ∈ more.head?, t.lexeme = .lineBreak) ∧
    ∀ t ∈ significant? more, t.isMark '{' = false ∧ t.isMarkOf leadingMarks = false

section Places

variable {past rest more : List Token} {t : Token}

theorem significant?_cons_of_ne (h : t.lexeme ≠ .lineBreak) :
    significant? (t :: past) = some t := by
  simp [significant?, significant, Token.isLineBreak, h]

theorem significant?_cons_of_lineBreak (h : t.lexeme = .lineBreak) :
    significant? (t :: past) = significant? past := by
  simp [significant?, significant, Token.isLineBreak, h]

theorem Finished.nil : Finished [] := by
  simp [Finished, significant?, significant]

/-- Behind a token that finishes a line, the line is finished. -/
theorem Finished.cons (h : t.lexeme.Finishes) : Finished (t :: past) := by
  have hne : t.lexeme ≠ .lineBreak := by
    intro hbreak
    rw [hbreak] at h
    exact h
  intro u hu
  rw [significant?_cons_of_ne hne] at hu
  obtain rfl := Option.some.inj hu
  exact h

theorem Finished.cons_lineBreak (h : Finished past) (ht : t.lexeme = .lineBreak) :
    Finished (t :: past) := by
  unfold Finished
  rwa [significant?_cons_of_lineBreak ht]

theorem mark_finishes {c : Char} (h : c ∈ finishingMarks) :
    (Lexeme.mark c).Finishes := h

theorem static_finishes : (Lexeme.word "static").Finishes := by
  intro hmem
  exact absurd hmem (by decide)

/-- A lexeme that finishes a declaration is none of the other marks. -/
theorem isMarkOf_of_finishes (h : t.lexeme.Finishes) {marks : List Char}
    (hmarks : finishingMarks.any marks.contains = false) : t.isMarkOf marks = false := by
  unfold Token.isMarkOf Token.mark?
  cases hlexeme : t.lexeme with
  | mark c =>
      rw [hlexeme] at h
      exact Bool.not_eq_true _ ▸ List.any_eq_false.mp hmarks c h
  | word text => rfl
  | _ => simp [hlexeme, Lexeme.Finishes] at h

theorem any_isMarkOf_of_finished (h : Finished past) {marks : List Char}
    (hmarks : finishingMarks.any marks.contains = false) :
    (significant? past).any (Token.isMarkOf marks) = false := by
  rw [Option.any_eq_false]
  intro t ht
  rw [isMarkOf_of_finishes (h t ht) hmarks]

/-- Behind what is finished no pattern is open. -/
theorem isBindingPattern_of_finished (h : Finished past) : isBindingPattern past = false := by
  unfold isBindingPattern
  split
  next t ht =>
    have hfinishes := h t ht
    rw [isMarkOf_of_finishes hfinishes (by decide), Bool.or_false]
    unfold Token.isWordOf Token.word?
    cases hlexeme : t.lexeme with
    | word text =>
        have hplain : text ∉ bindingContexts := by
          rwa [hlexeme] at hfinishes
        simpa using hplain
    | _ => rfl
  next => rfl

variable {depth : Nat} {assigned : Bool}

/-- A word is part of a variable. -/
theorem passVariable_word {word : String} (h : t.lexeme = .word word) :
    passVariable depth assigned past (t :: rest) =
      passVariable depth assigned (t :: past) rest := by
  simp [passVariable, Token.isMark, Token.isMarkOf, Token.mark?, Token.isLineBreak, h]

/-- A colon and an optional mark are passed like words. -/
theorem passVariable_mark {c : Char} (h : t.lexeme = .mark c) (hc : c = ':' ∨ c = '?') :
    passVariable depth assigned past (t :: rest) =
      passVariable depth assigned (t :: past) rest := by
  rcases hc with rfl | rfl <;>
    simp [passVariable, Token.isMark, Token.isMarkOf, Token.mark?, Token.isLineBreak, h]

/-- A list type is passed like what is between its brackets. -/
theorem passVariable_list {word : String} {o n c : Token} (ho : o.lexeme = .mark '[')
    (hn : n.lexeme = .word word) (hc : c.lexeme = .mark ']') :
    passVariable 0 assigned past (o :: n :: c :: rest) =
      passVariable 0 assigned (c :: n :: o :: past) rest := by
  have hopens : o.opens? = some .square := Token.opens?_eq_some_iff.mpr ho
  have hcloses : c.closes? = some .square := Token.closes?_eq_some_iff.mpr hc
  rw [passVariable_of_opens _ _ _ _ hopens, if_neg (by simp), passVariable_word hn,
    passVariable_of_closes _ _ _ _ hcloses, if_neg (by simp)]

theorem passVariable_assign (h : t.lexeme = .assign) :
    passVariable 0 assigned past (t :: rest) = passVariable 0 true (t :: past) rest := by
  simp [passVariable, Token.isMark, Token.isMarkOf, Token.mark?, h]

/-- Between a finished line and what does not continue it a variable ends. -/
theorem variableContinues_of_finished (hpast : Finished past)
    (hnext : ∀ t ∈ significant? rest, t.isMark '{' = false ∧ t.isMarkOf leadingMarks = false)
    (assigned : Bool) : variableContinues assigned past rest = false := by
  unfold variableContinues
  dsimp only
  rw [Bool.or_eq_false_iff]
  constructor
  · split
    next t ht =>
      have hfinishes := hpast t ht
      have hquery : t.lexeme ≠ .query := by
        intro hlexeme
        rw [hlexeme] at hfinishes
        exact hfinishes
      rw [isMarkOf_of_finishes hfinishes (by decide), Bool.or_false, beq_eq_false_iff_ne]
      exact hquery
    next => rfl
  · split
    next t ht =>
      obtain ⟨hbrace, hmarks⟩ := hnext t ht
      rw [hbrace, hmarks]
      rfl
    next => rfl

/-- **The end of a line.**  A variable ends before it. -/
theorem passVariable_of_ends (hpast : Finished past) (hmore : EndsLine more) :
    passVariable 0 assigned past more = .bare past more := by
  obtain ⟨hbreak, hnext⟩ := hmore
  cases more with
  | nil => rfl
  | cons t ts =>
      have hlexeme := hbreak t rfl
      rw [significant?_cons_of_lineBreak hlexeme] at hnext
      simp [passVariable, Token.isMark, Token.isMarkOf, Token.mark?, Token.isLineBreak, hlexeme,
        variableContinues_of_finished hpast hnext]

/-- A line that begins with a lexeme that nothing is continued by ends the one before
it. -/
theorem EndsLine.of_lexeme {t u : Token} (ht : t.lexeme = .lineBreak)
    (hne : u.lexeme ≠ .lineBreak) (hnext : u.isMark '{' = false ∧ u.isMarkOf leadingMarks = false) :
    EndsLine (t :: u :: rest) := by
  refine ⟨?_, ?_⟩
  · intro v hv
    obtain rfl := Option.some.inj hv
    exact ht
  · intro v hv
    rw [significant?_cons_of_lineBreak ht, significant?_cons_of_ne hne] at hv
    obtain rfl := Option.some.inj hv
    exact hnext

/-- A line that begins with a word ends the one before it. -/
theorem EndsLine.of_word {t u : Token} {word : String} (ht : t.lexeme = .lineBreak)
    (hu : u.lexeme = .word word) : EndsLine (t :: u :: rest) :=
  .of_lexeme ht (by simp [hu]) (by simp [Token.isMark, Token.isMarkOf, Token.mark?, hu])

/-- A line with a closing brace ends the one before it. -/
theorem EndsLine.of_close {t u : Token} (ht : t.lexeme = .lineBreak)
    (hu : u.lexeme = .mark '}') : EndsLine (t :: u :: rest) :=
  .of_lexeme ht (by simp [hu])
    (by simp [Token.isMark, Token.isMarkOf, Token.mark?, hu, leadingMarks])

end Places

section Steps

variable {past rest : List Token} {t : Token} {scope : Scope} {frames : List Frame}
  {found : List Declaration} {modifiers : Modifiers}

/-- A run goes on with what a step leaves. -/
theorem run_of_step {next : State}
    (h : step ⟨past, t :: rest, scope, frames, found, modifiers⟩ t rest = .ok next) :
    run ⟨past, t :: rest, scope, frames, found, modifiers⟩ = run next := by
  rw [run_of_cons rfl, h]
  rfl

theorem run_lineBreak (h : t.lexeme = .lineBreak) :
    run ⟨past, t :: rest, scope, frames, found, modifiers⟩ =
      run ⟨t :: past, rest, scope, frames, found, modifiers⟩ := by
  apply run_of_step
  simp [step, h, State.moveTo]

/-- A word is read. -/
theorem run_word {word : String} (h : t.lexeme = .word word) :
    run ⟨past, t :: rest, scope, frames, found, modifiers⟩ =
      run (State.readWord ⟨past, t :: rest, scope, frames, found, modifiers⟩ word t rest) := by
  apply run_of_step
  simp [step, h]

theorem run_static (h : t.lexeme = .word "static") :
    run ⟨past, t :: rest, scope, frames, found, modifiers⟩ =
      run ⟨t :: past, rest, scope, frames, found, { modifiers with isStatic := true }⟩ := by
  rw [run_word h]
  simp [State.readWord, State.moveTo]

/-- An access level for the setter is passed with its parentheses. -/
theorem run_access {access : String} {a o w c : Token} (haccess : access ∈ accessLevels)
    (ha : a.lexeme = .word access) (ho : o.lexeme = .mark '(') (hw : w.lexeme = .word "set")
    (hc : c.lexeme = .mark ')') :
    run ⟨past, a :: o :: w :: c :: rest, scope, frames, found, modifiers⟩ =
      run ⟨c :: w :: o :: a :: past, rest, scope, frames, found,
        { modifiers with setterAccessibility := some (setterOfAccess access) }⟩ := by
  have hstatic : access ≠ "static" := by
    rintro rfl
    exact absurd haccess (by decide)
  have hclass : access ≠ "class" := by
    rintro rfl
    exact absurd haccess (by decide)
  rw [run_word ha]
  simp [State.readWord, State.moveTo, setterSuffix?, haccess, hstatic, hclass, Token.isMark,
    Token.mark?, Token.isWordOf, Token.word?, ho, hw, hc]

/-- A variable without accessors is declared. -/
theorem run_variable {word : String} {past' rest' : List Token} (ht : t.lexeme = .word word)
    (hword : word = "let" ∨ word = "var") (hpast : Finished past)
    (hpass : passVariable 0 false (t :: past) rest = .bare past' rest') :
    run ⟨past, t :: rest, scope, frames, found, modifiers⟩ =
      run ⟨past', rest', scope, frames,
        { kind := some (variableKind scope modifiers)
          range := some (ByteRange.between t.start (lastStop past'))
          setterAccessibility := modifiers.setterAccessibility } :: found, {}⟩ := by
  rw [run_word ht]
  have hpattern := isBindingPattern_of_finished hpast
  have hread : State.readWord ⟨past, t :: rest, scope, frames, found, modifiers⟩ word t rest =
      State.readVariable ⟨past, t :: rest, scope, frames, found, modifiers⟩ t rest := by
    rcases hword with rfl | rfl <;>
      simp [State.readWord, hpattern, accessLevels, typeIntroducers, functionIntroducers]
  rw [hread]
  simp [State.readVariable, hpass, State.settle]

/-- A closing brace closes the innermost body. -/
theorem run_close {kind : DeclarationKind} {start : Nat} {brace : Token} {outer : Scope}
    {siblings : List Declaration} (h : t.lexeme = .mark '}') :
    run ⟨past, t :: rest, scope, ⟨.body kind start, brace, outer, siblings⟩ :: frames, found,
      modifiers⟩ =
      run ⟨t :: past, rest, outer, frames,
        { kind := some kind
          range := some (ByteRange.between start t.stop)
          bodyLength := some (t.start - brace.stop)
          children := found.reverse } :: siblings, {}⟩ := by
  apply run_of_step
  simp [step, h, Frame.close]

/-- A header takes a word. -/
theorem passHeader_word {word : String} {depth : Nat} (h : t.lexeme = .word word) :
    passHeader depth past (t :: rest) = passHeader depth (t :: past) rest := by
  simp [passHeader, Token.isMark, Token.isMarkOf, Token.mark?, Token.isLineBreak, h]

/-- A type with a body is entered. -/
theorem run_type {word name : String} {n b : Token} (hpast : Finished past)
    (hword : word ∈ typeIntroducers) (hname : name ∉ classModifierFollowers)
    (ht : t.lexeme = .word word) (hn : n.lexeme = .word name) (hb : b.lexeme = .mark '{') :
    run ⟨past, t :: n :: b :: rest, scope, frames, found, {}⟩ =
      run ⟨b :: n :: t :: past, rest, .type,
        ⟨.body (typeKind word) t.start, b, scope, found⟩ :: frames, [], {}⟩ := by
  have hopens : b.opens? = some .brace := Token.opens?_eq_some_iff.mpr hb
  have hend : passHeader 0 (t :: past) (n :: b :: rest) = .body (n :: t :: past) b rest := by
    rw [passHeader_word hn, passHeader_of_opens _ _ _ hopens, if_pos ⟨rfl, rfl⟩]
  have hne : n.lexeme ≠ .lineBreak := by simp [hn]
  have hstarts : startsType past (n :: b :: rest) = true := by
    have hmember : (significant? past).any (Token.isMarkOf ['.', ':', ',']) = false :=
      any_isMarkOf_of_finished hpast (by decide)
    rw [startsType, hmember, significant?_cons_of_ne hne]
    simp [Token.isWord, Token.word?, hn]
  have hmodifier : nextWordIsOf classModifierFollowers (n :: b :: rest) = false := by
    rw [nextWordIsOf, significant?_cons_of_ne hne]
    simpa [Token.isWordOf, Token.word?, hn] using hname
  have hread : State.readWord ⟨past, t :: n :: b :: rest, scope, frames, found, {}⟩ word t
      (n :: b :: rest) =
        State.readType ⟨past, t :: n :: b :: rest, scope, frames, found, {}⟩ word t
          (n :: b :: rest) := by
    simp only [typeIntroducers, List.mem_cons, List.not_mem_nil, or_false] at hword
    rcases hword with rfl | rfl | rfl | rfl | rfl | rfl <;>
      simp [State.readWord, hmodifier, hstarts, accessLevels, typeIntroducers]
  rw [run_word ht, hread]
  simp [State.readType, hend, State.enter]

/-- A function with a body is entered. -/
theorem run_function {name : String} {n o c b : Token} (hpast : Finished past)
    (ht : t.lexeme = .word "func") (hn : n.lexeme = .word name)
    (ho : o.lexeme = .mark '(') (hc : c.lexeme = .mark ')') (hb : b.lexeme = .mark '{') :
    run ⟨past, t :: n :: o :: c :: b :: rest, scope, frames, found, {}⟩ =
      run ⟨b :: c :: o :: n :: t :: past, rest, .code,
        ⟨.body (functionKind "func" scope {}) t.start, b, scope, found⟩ :: frames, [], {}⟩ := by
  have hround : o.opens? = some .round := Token.opens?_eq_some_iff.mpr ho
  have hclosed : c.closes? = some .round := Token.closes?_eq_some_iff.mpr hc
  have hbrace : b.opens? = some .brace := Token.opens?_eq_some_iff.mpr hb
  have hend : passHeader 0 (t :: past) (n :: o :: c :: b :: rest) =
      .body (c :: o :: n :: t :: past) b rest := by
    rw [passHeader_word hn, passHeader_of_opens _ _ _ hround, if_neg (by simp),
      passHeader_of_closes _ _ _ hclosed, if_neg (by simp), passHeader_of_opens _ _ _ hbrace,
      if_pos ⟨rfl, rfl⟩]
  have hstarts : startsFunction past = true := by
    have hmember : (significant? past).any (Token.isMarkOf ['.']) = false :=
      any_isMarkOf_of_finished hpast (by decide)
    have hsame : Token.isMarkOf ['.'] = Token.isMark '.' := by
      funext u
      simp [Token.isMarkOf_eq_any]
    rw [startsFunction, ← hsame, hmember]
    rfl
  have hread : State.readWord ⟨past, t :: n :: o :: c :: b :: rest, scope, frames, found, {}⟩
      "func" t (n :: o :: c :: b :: rest) =
        State.readFunction ⟨past, t :: n :: o :: c :: b :: rest, scope, frames, found, {}⟩ "func" t
          (n :: o :: c :: b :: rest) := by
    simp [State.readWord, hstarts, accessLevels, typeIntroducers, functionIntroducers]
  rw [run_word ht, hread]
  simp [State.readFunction, hend, State.enter]

end Steps

end Outline

end DeclLint
