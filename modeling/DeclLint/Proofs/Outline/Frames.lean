import DeclLint.Proofs.Outline.Segment

/-!
# Frames and pending brackets

The outline reader has a frame for each curly bracket that is pending: a step that
takes an opening one enters a body, one that takes a closing one leaves it, and
whatever a step passes on the way leaves their number alone.  There are two
exceptions.  The tokens may end in a variable, and a closing bracket may come where
nothing is pending.

* `State.readWord_keeps` — what a word makes of the pending brackets;
* `Outline.step_turns` — a step keeps the frames in line with the curly brackets,
  or the tokens end in a variable, or it fails.
-/

namespace DeclLint

namespace Outline

open DeclLint.Bracket

variable {rest : List Token} {base final : List Bracket}

/-- A state that is reached over some tokens and has a frame for every curly bracket
that is pending there. -/
def State.Keeps (next : State) (ahead : List Token) (pending : List Bracket) : Prop :=
  ∃ left, (Cursor.mk next.past next.rest).Turns ahead pending left ∧
    left.count .brace = next.frames.length

/-- A state at the end of the tokens, reached over a variable whose own brackets are
still pending. -/
def State.LeavesOpen (s next : State) (ahead : List Token) (pending : List Bracket) : Prop :=
  next.rest = [] ∧ next.frames = s.frames ∧ ∃ own left, own ≠ [] ∧
    after pending ahead = some (own ++ left) ∧ left.count .brace = s.frames.length

variable {s : State} {current : List Bracket} {t : Token} {word : String}

/-- A frame goes with the brace that a body begins with. -/
theorem State.enter_keeps {owner : Owner} {scope : Scope} {past' rest' : List Token}
    {brace : Token} {left : List Bracket}
    (hturns : (Cursor.mk past' (brace :: rest')).Turns rest current left)
    (hleft : left.count .brace = s.frames.length) (hbrace : brace.lexeme = .mark '{') :
    (s.enter owner scope past' brace rest').Keeps rest current := by
  have hopens : brace.opens? = some .brace := Token.opens?_eq_some_iff.mpr hbrace
  refine ⟨.brace :: left, hturns.snoc rfl (turn_of_opens hopens left), ?_⟩
  rw [List.count_cons_self, hleft]
  rfl

/-- The header of a type turns its brackets; then its curly bracket enters a body, or it has
none. -/
theorem State.readType_keeps (hbase : OnlyBraces base) (hfinal : OnlyBraces final)
    (hcount : current.count .brace = s.frames.length)
    (h : after (current ++ base) rest = some final) :
    (s.readType word t rest).Keeps rest current := by
  obtain ⟨left, hturns, hleft⟩ :=
    @passHeader_turns (t :: s.past) rest [] current base final .nil hbase hfinal h
  rw [List.length_nil] at hturns
  unfold State.readType
  split
  next past brace rest' hend =>
    rw [hend] at hturns
    exact enter_keeps hturns (hleft.trans hcount) (passHeader_brace hend)
  next past rest' hend =>
    rw [hend] at hturns
    exact ⟨left, hturns, hleft.trans hcount⟩

/-- So it is with a function. -/
theorem State.readFunction_keeps (hbase : OnlyBraces base) (hfinal : OnlyBraces final)
    (hcount : current.count .brace = s.frames.length)
    (h : after (current ++ base) rest = some final) :
    (s.readFunction word t rest).Keeps rest current := by
  obtain ⟨left, hturns, hleft⟩ :=
    @passHeader_turns (t :: s.past) rest [] current base final .nil hbase hfinal h
  rw [List.length_nil] at hturns
  unfold State.readFunction
  dsimp only
  split
  next past brace rest' hend =>
    rw [hend] at hturns
    exact enter_keeps hturns (hleft.trans hcount) (passHeader_brace hend)
  next past rest' hend =>
    rw [hend] at hturns
    exact ⟨left, hturns, hleft.trans hcount⟩

/-- A variable goes with the curly brackets, or the tokens end in it. -/
theorem State.readVariable_keeps (hcount : current.count .brace = s.frames.length)
    (h : after (current ++ base) rest = some final) :
    (s.readVariable t rest).Keeps rest current ∨
      Takes (t :: s.past) .definition rest [] ∧
        s.LeavesOpen (s.readVariable t rest) rest current := by
  obtain ⟨own, left, hturns, hleft, hown⟩ :=
    @passVariable_turns false (t :: s.past) rest [] current base final h
  rw [List.length_nil] at hturns hown
  by_cases hne : own = []
  · subst hne
    left
    unfold State.readVariable
    dsimp only
    split
    next past brace rest' hend =>
      rw [hend] at hturns
      exact enter_keeps hturns (hleft.trans hcount) (passVariable_brace hend)
    next past rest' hend =>
      rw [hend] at hturns
      exact ⟨left, hturns, hleft.trans hcount⟩
  · right
    have hnil := hown hne
    obtain ⟨following, rest, rfl, hcursor, htakes⟩ := passVariable_takes (t :: s.past) rest
    rw [hcursor] at hnil hturns
    obtain rfl : rest = [] := hnil
    rw [List.append_nil] at hcursor hturns ⊢
    refine ⟨htakes, ?_⟩
    unfold State.readVariable
    dsimp only
    split
    next past brace rest' hend =>
      rw [hend] at hcursor
      exact absurd (Cursor.mk.inj hcursor).2 (List.cons_ne_nil brace rest')
    next past rest' hend =>
      rw [hend] at hcursor
      obtain ⟨rfl, rfl⟩ := Cursor.mk.inj hcursor
      obtain ⟨passed, hrest, hafter⟩ := hturns
      obtain rfl : following = passed := by simpa using hrest
      exact ⟨rfl, rfl, own, left, hne, hafter, hleft.trans hcount⟩

/-- A word does nothing to the pending brackets. -/
theorem turn_of_word (hword : t.lexeme = .word word) (pending : List Bracket) :
    turn pending t = some pending := by
  have hnone : ∀ c, t.lexeme ≠ .mark c := by simp [hword]
  obtain ⟨hopens, hcloses⟩ := Token.plain_of_lexeme hnone
  exact turn_of_plain hopens hcloses pending

/-- Arguments are balanced: the brackets that they open are closed where they end. -/
theorem skipArguments_turns (hfinal : OnlyBraces final)
    (h : after (current ++ base) rest = some final) :
    (skipArguments past rest).Turns rest current current := by
  unfold skipArguments
  cases rest with
  | nil => exact .refl past [] current
  | cons t ts =>
      cases hround : t.isMark '(' with
      | false =>
          rw [List.head?_cons, Option.any_some, hround]
          exact .refl past (t :: ts) current
      | true =>
          have hopens : t.opens? = some .round := Token.opens?_of_isMark hround
          obtain ⟨mid, hturn, hrest⟩ := after_cons_eq_some_iff.mp h
          obtain rfl := Option.some.inj ((turn_of_opens hopens _).symm.trans hturn)
          have hground : Grounded [.round] := Grounded.nil.cons (by simp)
          have hturns : (skipGroup 1 (t :: past) ts).Turns ts ([.round] ++ current) current :=
            skipGroup_turns hground (by simp) hfinal hrest
          rw [List.head?_cons, Option.any_some, hround, if_pos rfl,
            skipGroup_of_opens _ _ _ hopens]
          exact hturns.cons (turn_of_opens hopens current)

/-- An attribute passes its name, which turns nothing, and its arguments. -/
theorem skipAttribute_turns (hfinal : OnlyBraces final)
    (h : after (current ++ base) rest = some final) :
    (skipAttribute past rest).Turns rest current current := by
  unfold skipAttribute
  split
  next t ts =>
    split
    next hword =>
      obtain ⟨word, hlexeme⟩ := Token.isWord_eq_true_iff.mp hword
      obtain ⟨mid, hturn, hrest⟩ := after_cons_eq_some_iff.mp h
      obtain rfl := Option.some.inj ((turn_of_word hlexeme _).symm.trans hturn)
      exact (skipArguments_turns hfinal hrest).cons (turn_of_word hlexeme current)
    next => exact .refl past _ current
  next => exact .refl past [] current

/-- The brackets of a setter suffix are a pair. -/
theorem setterSuffix?_turns {c : Cursor} (h : setterSuffix? past rest = some c) :
    c.Turns rest current current := by
  unfold setterSuffix? at h
  split at h
  next first middle last ts =>
    split at h
    next hsuffix =>
      simp only [Bool.and_eq_true] at hsuffix
      obtain ⟨⟨hround, hset⟩, hlast⟩ := hsuffix
      obtain rfl := Option.some.inj h
      obtain ⟨word, -, hlexeme⟩ := Token.isWordOf_eq_true_iff.mp hset
      have hopens : first.opens? = some .round := Token.opens?_of_isMark hround
      have hcloses : last.closes? = some .round := Token.closes?_of_isMark hlast
      have hthree := (((Cursor.Turns.refl (last :: middle :: first :: past) ts current).cons
        (turn_of_closes hcloses current)).cons (turn_of_word hlexeme _)).cons
          (turn_of_opens hopens current)
      exact hthree
    next => simp at h
  next => simp at h

/-- A state at a place that is reached over the tokens `passed`. -/
theorem State.Keeps.of_turns {next : State} {c : Cursor} {pending : List Bracket}
    (hturns : c.Turns rest pending current) (hrest : next.rest = c.rest)
    (hcount : current.count .brace = next.frames.length) : next.Keeps rest pending := by
  obtain ⟨passed, hahead, hafter⟩ := hturns
  exact ⟨current, ⟨passed, by rw [hahead, hrest], hafter⟩, hcount⟩

/-- **Words.**  A word goes with the curly brackets, or it introduces a variable in which
the tokens end. -/
theorem State.readWord_keeps (hword : t.lexeme = .word word) (hbase : OnlyBraces base)
    (hfinal : OnlyBraces final) (hcount : current.count .brace = s.frames.length)
    (h : after (current ++ base) rest = some final) :
    (s.readWord word t rest).Keeps rest current ∨
      Introduces s.past t rest .definition ∧ Takes (t :: s.past) .definition rest [] ∧
        s.LeavesOpen (s.readWord word t rest) rest current := by
  have hstay := Cursor.Turns.refl (t :: s.past) rest current
  unfold State.readWord
  dsimp only
  split
  next => exact .inl (.of_turns hstay rfl hcount)
  split
  next => exact .inl (.of_turns hstay rfl hcount)
  split
  next =>
    split
    next after hafter => exact .inl (.of_turns (setterSuffix?_turns hafter) rfl hcount)
    next => exact .inl (.of_turns hstay rfl hcount)
  split
  next => exact .inl (readType_keeps hbase hfinal hcount h)
  split
  next => exact .inl (readFunction_keeps hbase hfinal hcount h)
  split
  next hvariable =>
    split
    next => exact .inl (.of_turns hstay rfl hcount)
    next hpattern =>
      rcases readVariable_keeps (t := t) hcount h with hkeeps | hopen
      · exact .inl hkeeps
      · exact .inr ⟨.definition hword hvariable (by simpa using hpattern), hopen⟩
  split
  next => exact .inl (.of_turns (skipArguments_turns hfinal h) rfl hcount)
  next => exact .inl (.of_turns hstay rfl hcount)

theorem State.Keeps.cons {next : State} {pending mid : List Bracket}
    (h : next.Keeps rest mid) (hturn : turn pending t = some mid) :
    next.Keeps (t :: rest) pending := by
  obtain ⟨left, hturns, hcount⟩ := h
  exact ⟨left, hturns.cons hturn, hcount⟩

theorem State.LeavesOpen.cons {next : State} {pending mid : List Bracket}
    (h : s.LeavesOpen next rest mid) (hturn : turn pending t = some mid) :
    s.LeavesOpen next (t :: rest) pending := by
  obtain ⟨hrest, hframes, own, left, hne, hafter, hcount⟩ := h
  exact ⟨hrest, hframes, own, left, hne, after_cons_eq_some_iff.mpr ⟨mid, hturn, hafter⟩, hcount⟩

/-- What a step does to the brackets that are pending: it keeps a frame for every
curly one, or it is the last step and leaves a variable open, or it fails at a
closing one where nothing is pending. -/
inductive StepTurns (s : State) (t : Token) (rest : List Token) (pending : List Bracket) :
    Except ParseError State → Prop
  | keeps {next : State} (h : next.Keeps (t :: rest) pending) :
      StepTurns s t rest pending (.ok next)
  | leavesOpen {next : State} (hkind : Introduces s.past t rest .definition)
      (htakes : Takes (t :: s.past) .definition rest [])
      (h : s.LeavesOpen next (t :: rest) pending) : StepTurns s t rest pending (.ok next)
  | fails {e : ParseError} (hcloses : t.closes? = some .brace) (hpending : pending = []) :
      StepTurns s t rest pending (.error e)

/-- A bracket that opens becomes pending, and a frame is entered if it is curly. -/
theorem step_turns_of_opens {b : Bracket} (hopens : t.opens? = some b)
    (hcount : current.count .brace = s.frames.length) :
    StepTurns s t rest current (step s t rest) := by
  have hlexeme := Token.opens?_eq_some_iff.mp hopens
  have hturns := (Cursor.Turns.refl (t :: s.past) rest (b :: current)).cons
    (turn_of_opens hopens current)
  unfold step
  rw [hlexeme]
  cases b with
  | brace =>
      refine .keeps (.of_turns hturns rfl ?_)
      rw [List.count_cons_self, hcount]
      rfl
  | round | square =>
      refine .keeps (.of_turns hturns rfl ?_)
      rw [List.count_cons_of_ne (by decide), hcount]
      rfl

/-- A bracket that closes takes the innermost pending one, and leaves a frame if it is curly;
an outer one is left to whoever opened it. -/
theorem step_turns_of_closes {b : Bracket} {mid : List Bracket} (hcloses : t.closes? = some b)
    (hpending : current ++ base = b :: mid) (hbase : OnlyBraces base)
    (hcount : current.count .brace = s.frames.length) :
    StepTurns s t rest current (step s t rest) := by
  have hlexeme := Token.closes?_eq_some_iff.mp hcloses
  cases current with
  | nil =>
      rw [List.nil_append] at hpending
      obtain rfl : b = .brace := hbase b (hpending ▸ List.mem_cons_self)
      have hframes : s.frames = [] := List.length_eq_zero_iff.mp hcount.symm
      have hstep : step s t rest = .error (.unbalanced '}' t.start) := by
        simp [step, hlexeme, Bracket.closing, hframes]
      rw [hstep]
      exact .fails hcloses rfl
  | cons c current =>
      obtain ⟨rfl, rfl⟩ := List.cons.inj hpending
      have hturns := (Cursor.Turns.refl (t :: s.past) rest current).cons
        (turn_of_closes hcloses current)
      cases c with
      | round | square =>
          unfold step
          rw [hlexeme]
          refine .keeps (.of_turns hturns rfl ?_)
          rw [List.count_cons_of_ne (by decide)] at hcount
          exact hcount
      | brace =>
          rw [List.count_cons_self] at hcount
          obtain ⟨frame, frames, hframes⟩ := List.exists_cons_of_length_eq_add_one hcount.symm
          have hstep : step s t rest = .ok
              { past := t :: s.past, rest := rest, scope := frame.scope, frames := frames
                found := frame.close t s.found } := by
            simp [step, hlexeme, Bracket.closing, hframes]
          rw [hstep]
          refine .keeps (.of_turns hturns rfl ?_)
          rw [hframes, List.length_cons] at hcount
          exact Nat.add_right_cancel hcount

/-- Any other token turns nothing itself.  What it introduces is passed with it: an attribute,
a setter suffix, a header or a variable. -/
theorem step_turns_of_plain (hopens : t.opens? = none) (hcloses : t.closes? = none)
    (hbase : OnlyBraces base) (hfinal : OnlyBraces final)
    (hcount : current.count .brace = s.frames.length)
    (h : after (current ++ base) rest = some final) :
    StepTurns s t rest current (step s t rest) := by
  have hturn := turn_of_plain hopens hcloses current
  have hstay := (Cursor.Turns.refl (t :: s.past) rest current).cons hturn
  unfold step
  dsimp only
  split
  next word hword =>
    rcases State.readWord_keeps hword hbase hfinal hcount h with hkeeps | ⟨hkind, htakes, hopen⟩
    · exact .keeps (hkeeps.cons hturn)
    · exact .leavesOpen hkind htakes (hopen.cons hturn)
  next => exact .keeps (.of_turns hstay rfl hcount)
  next => exact .keeps (.of_turns hstay rfl hcount)
  next => exact .keeps (.of_turns hstay rfl hcount)
  next => exact .keeps (.of_turns hstay rfl hcount)
  next c hmark =>
    split
    next hbrace =>
      rw [hbrace] at hmark
      have hsome : t.closes? = some .brace := Token.closes?_eq_some_iff.mpr hmark
      simp [hsome] at hcloses
    split
    next hbrace =>
      rw [hbrace] at hmark
      have hsome : t.opens? = some .brace := Token.opens?_eq_some_iff.mpr hmark
      simp [hsome] at hopens
    split
    next => exact .keeps (.of_turns hstay rfl hcount)
    split
    next => exact .keeps (.of_turns ((skipAttribute_turns hfinal h).cons hturn) rfl hcount)
    next => exact .keeps (.of_turns hstay rfl hcount)

/-- **Steps.** -/
theorem step_turns (hbase : OnlyBraces base) (hfinal : OnlyBraces final)
    (hcount : current.count .brace = s.frames.length)
    (h : after (current ++ base) (t :: rest) = some final) :
    StepTurns s t rest current (step s t rest) := by
  obtain ⟨mid, hturn, hrest⟩ := after_cons_eq_some_iff.mp h
  rcases turn_cases hturn with
    ⟨b, hopens, -⟩ | ⟨b, hcloses, hpending⟩ | ⟨hopens, hcloses, rfl⟩
  · exact step_turns_of_opens hopens hcount
  · exact step_turns_of_closes hcloses hpending hbase hcount
  · exact step_turns_of_plain hopens hcloses hbase hfinal hcount hrest

end Outline

end DeclLint
