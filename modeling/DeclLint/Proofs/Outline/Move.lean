import DeclLint.Source.Outline

/-!
# What one step of the outline reader can do

However a step finds its way, it makes one of four moves: it passes some tokens,
it passes the tokens of a declaration without body and declares it, it passes an
introduction and enters the body behind it, or it leaves a body.  All else in the
reader only decides which move is made and how many tokens it takes.

* `Cursor.Advances` — a place that some passed tokens lead to;
* `Outline.Declares`, `Outline.Opens` — introductions without and with a body;
* `Outline.step_move` — every step that succeeds is a move;
* `Outline.step_eq_error_iff` — the steps that fail.
-/

namespace DeclLint

/-- Apart from `=` and `?`, whose place matters, a mark is told by its
character. -/
theorem Token.isMark_iff {t : Token} {c : Char} (hassign : c ≠ '=') (hquery : c ≠ '?') :
    t.isMark c = true ↔ t.lexeme = .mark c := by
  unfold Token.isMark Token.mark?
  cases hlexeme : t.lexeme with
  | assign => simpa using hassign.symm
  | query => simpa using hquery.symm
  | _ => simp

theorem Token.isLineBreak_of_word {t : Token} {text : String} (h : t.lexeme = .word text) :
    t.isLineBreak = false := by
  unfold Token.isLineBreak
  rw [h]
  rfl

namespace Outline

/-- The place is reached from another one by passing some tokens. -/
def Cursor.Advances (c : Cursor) (past rest : List Token) : Prop :=
  ∃ passed, rest = passed ++ c.rest ∧ c.past = passed.reverse ++ past

theorem Cursor.Advances.refl (past rest : List Token) :
    (Cursor.mk past rest).Advances past rest :=
  ⟨[], rfl, rfl⟩

theorem Cursor.Advances.cons {c : Cursor} {t : Token} {past rest : List Token}
    (h : c.Advances (t :: past) rest) : c.Advances past (t :: rest) := by
  obtain ⟨passed, hrest, hpast⟩ := h
  exact ⟨t :: passed, by simp [hrest], by simp [hpast]⟩

theorem skipGroup_advances (depth : Nat) (past rest : List Token) :
    (skipGroup depth past rest).Advances past rest := by
  fun_induction skipGroup depth past rest with
  | case1 => exact .refl _ []
  | case2 | case4 | case5 => exact Cursor.Advances.cons ‹_›
  | case3 => exact Cursor.Advances.cons (.refl _ _)

theorem skipArguments_advances (past rest : List Token) :
    (skipArguments past rest).Advances past rest := by
  unfold skipArguments
  split
  · exact skipGroup_advances 0 past rest
  · exact .refl past rest

/-- An attribute passes tokens and drops none. -/
theorem skipAttribute_advances (past rest : List Token) :
    (skipAttribute past rest).Advances past rest := by
  unfold skipAttribute
  split
  · split
    · exact (skipArguments_advances _ _).cons
    · exact .refl past _
  · exact .refl past []

/-- So does the suffix of a modifier that names the setter. -/
theorem setterSuffix?_advances {past rest : List Token} {c : Cursor}
    (h : setterSuffix? past rest = some c) : c.Advances past rest := by
  unfold setterSuffix? at h
  split at h
  next a b d ts =>
    split at h
    · obtain rfl := Option.some.inj h
      exact ⟨[a, b, d], rfl, rfl⟩
    · simp at h
  next => simp at h

/-- The place where a header ends. -/
def HeaderEnd.cursor : HeaderEnd → Cursor
  | body past brace rest => ⟨past, brace :: rest⟩
  | bare past rest => ⟨past, rest⟩

/-- The place where a variable ends. -/
def VariableEnd.cursor : VariableEnd → Cursor
  | accessors past brace rest => ⟨past, brace :: rest⟩
  | bare past rest => ⟨past, rest⟩

theorem passHeader_advances (depth : Nat) (past rest : List Token) :
    (passHeader depth past rest).cursor.Advances past rest := by
  fun_induction passHeader depth past rest with
  | case1 | case2 | case5 | case7 | case8 => exact .refl _ _
  | case3 | case4 | case6 | case9 => exact Cursor.Advances.cons ‹_›

/-- The body of a header begins at a curly bracket. -/
theorem passHeader_brace {depth : Nat} {past past' rest rest' : List Token} {brace : Token}
    (h : passHeader depth past rest = .body past' brace rest') :
    brace.lexeme = .mark '{' := by
  fun_induction passHeader depth past rest with
  | case2 depth past t ts hbrace =>
      obtain ⟨-, rfl, -⟩ : _ ∧ t = brace ∧ _ := by simpa using h
      rw [Bool.and_eq_true] at hbrace
      exact (Token.isMark_iff (by decide) (by decide)).mp hbrace.1
  | case1 | case5 | case7 | case8 => simp at h
  | case3 | case4 | case6 | case9 => rename_i ih; exact ih h

theorem passVariable_advances (depth : Nat) (assigned : Bool) (past rest : List Token) :
    (passVariable depth assigned past rest).cursor.Advances past rest := by
  fun_induction passVariable depth assigned past rest with
  | case1 | case2 | case4 | case6 | case8 => exact .refl _ _
  | case3 | case5 | case7 | case9 => exact Cursor.Advances.cons ‹_›

/-- The accessors of a variable begin at a curly bracket. -/
theorem passVariable_brace {depth : Nat} {assigned : Bool}
    {past past' rest rest' : List Token} {brace : Token}
    (h : passVariable depth assigned past rest = .accessors past' brace rest') :
    brace.lexeme = .mark '{' := by
  fun_induction passVariable depth assigned past rest with
  | case2 depth assigned past t ts hbrace =>
      obtain ⟨-, rfl, -⟩ : _ ∧ t = brace ∧ _ := by simpa using h
      simp only [Bool.and_eq_true] at hbrace
      exact (Token.isMark_iff (by decide) (by decide)).mp hbrace.1.1
  | case1 | case4 | case6 | case8 => simp at h
  | case3 | case5 | case7 | case9 => rename_i ih; exact ih h

/-- A declaration without body whose introducing word and what belongs to it
are the given tokens. -/
inductive Declares (scope : Scope) : List Token → Declaration → Prop
  | function {word : Token} {text : String} (following : List Token)
      (modifiers : Modifiers) (hword : word.lexeme = .word text)
      (htext : text ∈ functionIntroducers) :
      Declares scope (word :: following)
        { kind := some (functionKind text scope modifiers)
          range := some (ByteRange.between word.start
            (lastStop (word :: following).reverse)) }
  | variable {word : Token} {text : String} (following : List Token)
      (modifiers : Modifiers) (hword : word.lexeme = .word text)
      (htext : text = "let" ∨ text = "var") :
      Declares scope (word :: following)
        { kind := some (variableKind scope modifiers)
          range := some (ByteRange.between word.start
            (lastStop (word :: following).reverse))
          setterAccessibility := modifiers.setterAccessibility }

/-- The given tokens introduce a body: what it belongs to and the scope inside.
A block has no introduction. -/
inductive Opens (scope : Scope) : List Token → Owner → Scope → Prop
  | block : Opens scope [] .block (blockScope scope)
  | type {word : Token} {text : String} (following : List Token)
      (hword : word.lexeme = .word text) (htext : text ∈ typeIntroducers) :
      Opens scope (word :: following) (.body (typeKind text) word.start) .type
  | function {word : Token} {text : String} (following : List Token)
      (modifiers : Modifiers) (hword : word.lexeme = .word text)
      (htext : text ∈ functionIntroducers) :
      Opens scope (word :: following)
        (.body (functionKind text scope modifiers) word.start) .code
  | accessors {word : Token} {text : String} (following : List Token)
      (modifiers : Modifiers) (hword : word.lexeme = .word text)
      (htext : text = "let" ∨ text = "var") :
      Opens scope (word :: following)
        (.accessors (variableKind scope modifiers) word.start
          modifiers.setterAccessibility) .code

/-- A move of the reader over the tokens `ahead`. -/
inductive Move (s : State) (ahead : List Token) : State → Prop
  | pass {passed rest : List Token} (modifiers : Modifiers)
      (hahead : ahead = passed ++ rest) :
      Move s ahead
        { s with past := passed.reverse ++ s.past, rest := rest, modifiers := modifiers }
  | declare {passed : List Token} (rest : List Token) {d : Declaration}
      (hahead : ahead = passed ++ rest) (hd : Declares s.scope passed d) :
      Move s ahead
        { s.settle (passed.reverse ++ s.past) rest with found := d :: s.found }
  | enter {passed : List Token} (rest : List Token) {brace : Token} {owner : Owner}
      {inside : Scope}
      (hahead : ahead = passed ++ brace :: rest) (hbrace : brace.lexeme = .mark '{')
      (hopens : Opens s.scope passed owner inside) :
      Move s ahead (s.enter owner inside (passed.reverse ++ s.past) brace rest)
  | leave {closing : Token} {rest : List Token} {frame : Frame} {frames : List Frame}
      (hahead : ahead = closing :: rest) (hclosing : closing.lexeme = .mark '}')
      (hframes : s.frames = frame :: frames) :
      Move s ahead
        { past := closing :: s.past, rest := rest, scope := frame.scope
          frames := frames, found := frame.close closing s.found }

/-- To go on at a place further on is to pass the tokens before it. -/
theorem Move.of_advances {s : State} {ahead : List Token} {c : Cursor}
    (h : c.Advances s.past ahead) (modifiers : Modifiers) :
    Move s ahead { s with past := c.past, rest := c.rest, modifiers := modifiers } := by
  obtain ⟨passed, hahead, hpast⟩ := h
  rw [hpast]
  exact .pass modifiers hahead

/-- The stop of the last token of an introduction does not depend on what came
before its word. -/
theorem lastStop_append {word : Token} {text : String} (hword : word.lexeme = .word text)
    (following past : List Token) :
    lastStop (following.reverse ++ word :: past) =
      lastStop (word :: following).reverse := by
  have hbreak : word.isLineBreak = false := Token.isLineBreak_of_word hword
  have hdrop : ∀ more : List Token,
      significant? (following.reverse ++ word :: more) =
        significant? (following.reverse ++ [word]) := by
    intro more
    unfold significant? significant
    induction following.reverse with
    | nil => simp [hbreak]
    | cons t ts ih =>
        cases h : t.isLineBreak with
        | true => simpa [List.dropWhile, h] using ih
        | false => simp [h]
  unfold lastStop
  rw [hdrop past, List.reverse_cons]

/-- A header that ends at a brace: what follows the word, up to the brace. -/
theorem passHeader_body {past past' rest rest' : List Token} {brace : Token}
    (h : passHeader 0 past rest = .body past' brace rest') :
    brace.lexeme = .mark '{' ∧
      ∃ following, rest = following ++ brace :: rest' ∧
        past' = following.reverse ++ past := by
  have hadvances := passHeader_advances 0 past rest
  rw [h] at hadvances
  exact ⟨passHeader_brace h, hadvances⟩

/-- A variable that ends at a brace: what follows the word, up to the brace. -/
theorem passVariable_accessors {past past' rest rest' : List Token} {brace : Token}
    (h : passVariable 0 false past rest = .accessors past' brace rest') :
    brace.lexeme = .mark '{' ∧
      ∃ following, rest = following ++ brace :: rest' ∧
        past' = following.reverse ++ past := by
  have hadvances := passVariable_advances 0 false past rest
  rw [h] at hadvances
  exact ⟨passVariable_brace h, hadvances⟩

variable {word : String} {t : Token} {rest : List Token}

/-- A type enters its body, or is passed without one. -/
theorem State.readType_move (s : State) (hword : t.lexeme = .word word)
    (htext : word ∈ typeIntroducers) : Move s (t :: rest) (s.readType word t rest) := by
  unfold State.readType
  split
  next past brace rest' hend =>
    obtain ⟨hbrace, following, rfl, rfl⟩ := passHeader_body hend
    have hmove := Move.enter (s := s) rest' rfl hbrace
      (.type following hword htext)
    simpa using hmove
  next past rest' hend =>
    have hadvances := passHeader_advances 0 (t :: s.past) rest
    rw [hend] at hadvances
    exact .of_advances hadvances.cons {}

/-- A function enters its body, or adds a leaf. -/
theorem State.readFunction_move (s : State) (hword : t.lexeme = .word word)
    (htext : word ∈ functionIntroducers) :
    Move s (t :: rest) (s.readFunction word t rest) := by
  unfold State.readFunction
  dsimp only
  split
  next past brace rest' hend =>
    obtain ⟨hbrace, following, rfl, rfl⟩ := passHeader_body hend
    have hmove := Move.enter (s := s) rest' rfl hbrace
      (.function following s.modifiers hword htext)
    simpa using hmove
  next past rest' hend =>
    have hadvances := passHeader_advances 0 (t :: s.past) rest
    rw [hend] at hadvances
    obtain ⟨following, hrest, rfl⟩ := hadvances
    have hmove := Move.declare (s := s) rest' rfl
      (.function following s.modifiers hword htext)
    rw [lastStop_append hword]
    simpa [hrest, HeaderEnd.cursor] using hmove

/-- A variable enters its accessors, or adds a leaf. -/
theorem State.readVariable_move (s : State) (hword : t.lexeme = .word word)
    (htext : word = "let" ∨ word = "var") :
    Move s (t :: rest) (s.readVariable t rest) := by
  unfold State.readVariable
  dsimp only
  split
  next past brace rest' hend =>
    obtain ⟨hbrace, following, rfl, rfl⟩ := passVariable_accessors hend
    have hmove := Move.enter (s := s) rest' rfl hbrace
      (.accessors following s.modifiers hword htext)
    simpa using hmove
  next past rest' hend =>
    have hadvances := passVariable_advances 0 false (t :: s.past) rest
    rw [hend] at hadvances
    obtain ⟨following, hrest, rfl⟩ := hadvances
    have hmove := Move.declare (s := s) rest' rfl
      (.variable following s.modifiers hword htext)
    rw [lastStop_append hword]
    simpa [hrest, VariableEnd.cursor] using hmove

/-- To pass one token is a move. -/
theorem Move.pass_one (s : State) (modifiers : Modifiers) :
    Move s (t :: rest)
      { s with past := t :: s.past, rest := rest, modifiers := modifiers } :=
  .of_advances (c := ⟨t :: s.past, rest⟩) (Cursor.Advances.cons (.refl _ _)) modifiers

/-- A word introduces a declaration, modifies one, or is passed. -/
theorem State.readWord_move (s : State) (hword : t.lexeme = .word word) :
    Move s (t :: rest) (s.readWord word t rest) := by
  unfold State.readWord
  dsimp only
  split
  · exact .pass_one s _
  split
  · exact .pass_one s _
  split
  · split
    next after hafter => exact .of_advances (setterSuffix?_advances hafter).cons _
    next => exact .pass_one s s.modifiers
  split
  next htype => exact s.readType_move hword (by simpa using htype.1)
  split
  next hfunction => exact s.readFunction_move hword (by simpa using hfunction.1)
  split
  next hvariable =>
    split
    · exact .pass_one s s.modifiers
    · exact s.readVariable_move hword hvariable
  split
  · exact .of_advances (skipArguments_advances _ rest).cons s.modifiers
  · exact .pass_one s {}

/-- **Every step is a move.** -/
theorem step_move {s next : State} (h : step s t rest = .ok next) :
    Move s (t :: rest) next := by
  unfold step at h
  dsimp only at h
  split at h
  next text hword =>
    obtain rfl := Except.ok.inj h
    exact s.readWord_move hword
  next =>
    obtain rfl := Except.ok.inj h
    exact .pass_one s {}
  next =>
    obtain rfl := Except.ok.inj h
    exact .pass_one s s.modifiers
  next =>
    obtain rfl := Except.ok.inj h
    exact .pass_one s s.modifiers
  next =>
    obtain rfl := Except.ok.inj h
    exact .pass_one s s.modifiers
  next c hmark =>
    split at h
    next hclosing =>
      split at h
      next => simp at h
      next frame frames hframes =>
        obtain rfl := Except.ok.inj h
        exact .leave rfl (hclosing ▸ hmark) hframes
    split at h
    next hbrace =>
      obtain rfl := Except.ok.inj h
      exact @Move.enter s _ [] rest t .block _ rfl (hbrace ▸ hmark) .block
    split at h
    next =>
      obtain rfl := Except.ok.inj h
      exact .pass_one s {}
    split at h
    next =>
      obtain rfl := Except.ok.inj h
      exact .of_advances (skipAttribute_advances _ rest).cons s.modifiers
    next =>
      obtain rfl := Except.ok.inj h
      exact .pass_one s s.modifiers

/-- A step fails only at a closing brace without an open one. -/
theorem step_eq_error_iff {s : State} {t : Token} {rest : List Token} {e : ParseError} :
    step s t rest = .error e ↔
      t.lexeme = .mark '}' ∧ s.frames = [] ∧ e = .unbalanced '}' t.start := by
  constructor
  · intro h
    unfold step at h
    dsimp only at h
    split at h
    next => simp at h
    next => simp at h
    next => simp at h
    next => simp at h
    next => simp at h
    next c hmark =>
      split at h
      next hclosing =>
        subst hclosing
        split at h
        next hframes => exact ⟨hmark, hframes, (Except.error.inj h).symm⟩
        next => simp at h
      next => grind
  · rintro ⟨hmark, hframes, rfl⟩
    simp [step, hmark, hframes]

/-- A move passes tokens. -/
theorem Move.advances {s next : State} {ahead : List Token} (h : Move s ahead next) :
    (Cursor.mk next.past next.rest).Advances s.past ahead := by
  cases h with
  | pass modifiers hahead => exact ⟨_, hahead, rfl⟩
  | declare rest hahead => exact ⟨_, hahead, rfl⟩
  | @enter passed rest brace _ _ hahead =>
      exact ⟨passed ++ [brace], by simp [hahead, State.enter], by simp [State.enter]⟩
  | @leave closing _ _ _ hahead => exact ⟨[closing], hahead, rfl⟩

/-- A run at the end of the tokens. -/
theorem run_of_nil {s : State} (hrest : s.rest = []) :
    run s = match s.frames with
      | [] => .ok s.found.reverse
      | frame :: _ => .error (.unbalanced '{' frame.brace.start) := by
  rw [run]
  split
  · rfl
  next hcons => simp [hrest] at hcons

/-- A run is a step and a run. -/
theorem run_of_cons {s : State} {t : Token} {rest : List Token} (hrest : s.rest = t :: rest) :
    run s = (step s t rest).bind run := by
  rw [run]
  split
  next hnil => simp [hrest] at hnil
  next t' rest' hcons =>
    obtain ⟨rfl, rfl⟩ : t' = t ∧ rest' = rest := by simpa [hrest, eq_comm] using hcons
    split
    next e hstep => simp [hstep, Except.bind]
    next next hstep => simp [hstep, Except.bind]

end Outline

end DeclLint
