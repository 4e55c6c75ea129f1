import DeclLint.Proofs.Checked.Place
import DeclLint.Proofs.Outline.Derivation

/-!
# Rounds of the scanner

A round of the scanner either goes on in the same body or calls the scanner for the inside of
a brace; the reader with a list of open braces makes one step where the scanner makes such a
call, and another one where the call ends.  To compare them, a round is followed up to its
call: whatever the call is, if it ends behind a closing brace, then the round ends with what
the frame of the brace makes of the declarations inside (`Calls`).  The differences the
scanner takes are those between ends of tokens, and the later token is always further on.

* `Scanner.Layout.behind`, `Scanner.Layout.le_lastStop` — the ends of tokens;
* `Scanner.parseType_calls`, `Scanner.parseFunction_calls`, `Scanner.variableLoop_agrees` —
  declarations with and without bodies;
* `Scanner.Agrees` — what a round comes to, by the step of the reader;
* `Scanner.parseItem_agrees` — every round agrees with a step.
-/

namespace DeclLint

namespace Scanner

open Checked
open Outline (Owner State Modifiers)

variable {source : String} {all past rest ts : List Token} {t : Token}

/-- What is behind a token starts behind it. -/
theorem Layout.behind (hall : Layout source all) {closing : Token} {later : List Token}
    (h : all = past.reverse ++ closing :: later) (ht : t ∈ past) : t.stop ≤ closing.start := by
  have hpairs := h ▸ hall.apart
  rw [List.pairwise_append] at hpairs
  exact hpairs.2.2 t (List.mem_reverse.mpr ht) closing List.mem_cons_self

theorem Layout.start_lt_stop (hall : Layout source all) (ht : t ∈ all) : t.start < t.stop :=
  (hall.stands t ht).start_lt_stop

/-- So it ends behind the start of the token. -/
theorem Layout.start_le_stop (hall : Layout source all) {closing : Token} {later : List Token}
    (h : all = past.reverse ++ closing :: later) (ht : t ∈ past) : t.start ≤ closing.stop := by
  have hmem : t ∈ all := by
    rw [h]
    exact List.mem_append_left _ (List.mem_reverse.mpr ht)
  have hclosing : closing ∈ all := by
    rw [h]
    simp
  have hbehind := hall.behind h ht
  have hlt := hall.start_lt_stop hmem
  have hlt' := hall.start_lt_stop hclosing
  omega

/-- The last token of an introduction ends behind the start of its word. -/
theorem Layout.le_lastStop (hall : Layout source all) {following : List Token} {word : Token}
    (hword : word.isLineBreak = false)
    (h : all = (following ++ word :: past).reverse ++ rest) :
    word.start ≤ Outline.lastStop (following ++ word :: past) := by
  have hmem : word ∈ all := by
    rw [h]
    simp
  have hlt := hall.start_lt_stop hmem
  induction following generalizing rest with
  | nil =>
      rw [List.nil_append, lastStop_cons, hword, if_neg (by decide)]
      omega
  | cons t following ih =>
      have hback : all = (following ++ word :: past).reverse ++ t :: rest := unpass h
      rw [List.cons_append, lastStop_cons]
      cases hbreak : t.isLineBreak with
      | true => exact ih hback
      | false =>
          have hle := hall.behind hback (t := word) (by simp)
          have hlt' := hall.start_lt_stop (t := t) (by rw [h]; simp)
          rw [if_neg (by decide)]
          omega

/-- What a computation gives that calls the scanner for the inside of a brace.  If the call is
refused, so is the computation; if the call ends behind a closing brace, the computation ends
with a function of the declarations inside, the closing brace and the index behind it. -/
structure Calls {α : Type} (all : List Token) (nested : Nested) (inside : Outline.Scope)
    (past : List Token) (brace : Token) (f : List Declaration → Token → Nat → α)
    (x : Checked ParseError α) : Prop where
  error : ∀ e, nested inside brace.raw (past.length + 1) = .error e → x = .error e
  closed : ∀ members more closing later,
    all = (more ++ brace :: past).reverse ++ closing :: later →
      nested inside brace.raw (past.length + 1) =
        .ok (members, (more ++ brace :: past).length + 1) →
      x = .ok (f members closing ((more ++ brace :: past).length + 1))

/-- What comes after a call. -/
theorem Calls.bind {α β : Type} {nested : Nested} {inside : Outline.Scope} {brace : Token}
    {f : List Declaration → Token → Nat → α} {x : Checked ParseError α}
    {g : α → Checked ParseError β} {k : List Declaration → Token → Nat → β}
    (h : Calls all nested inside past brace f x)
    (hg : ∀ members more closing later pos,
      all = (more ++ brace :: past).reverse ++ closing :: later →
        g (f members closing pos) = .ok (k members closing pos)) :
    Calls all nested inside past brace k (x >>= g) where
  error e hnested := by
    rw [h.error e hnested]
    rfl
  closed members more closing later hclosing hnested := by
    rw [h.closed members more closing later hclosing hnested, ok_bind]
    exact hg members more closing later _ hclosing

/-- A body is the call for what is inside, with the closing bracket that it ended at. -/
theorem parseBody_calls (nested : Nested) (inside : Outline.Scope)
    (h : all = past.reverse ++ t :: ts) :
    Calls all nested inside past t (fun members closing pos => (members, closing.raw, pos))
      (parseBody (all.map Token.raw) nested past.length inside) where
  error e hnested := by
    rw [parseBody, get_raw (here h), ok_bind, hnested]
    rfl
  closed members more closing later hclosing hnested := by
    rw [parseBody, get_raw (here h), ok_bind, hnested, ok_bind]
    dsimp only
    rw [sub_eq (Nat.le_add_left 1 _), ok_bind, Nat.add_sub_cancel, get_raw (here hclosing)]
    rfl

section

variable (hall : Layout source all) (nested : Nested) {word : String} {past' rest' : List Token}
  {brace : Token}

include hall

/-- A header goes on behind its word. -/
theorem findBodyOpen_behind (h : all = past.reverse ++ t :: ts) :
    findBodyOpen source (all.map Token.raw) 0 (past.length + 1) =
      .ok (headerIndex (Outline.passHeader 0 (t :: past) ts)) := findBodyOpen_eq hall 0 (pass h)

/-- **Types** without a body are passed. -/
theorem parseType_bare (h : all = past.reverse ++ t :: ts) (hword : t.lexeme = .word word)
    (hend : Outline.passHeader 0 (t :: past) ts = .bare past' rest') :
    parseType source (all.map Token.raw) nested past.length = .ok (none, past'.length) := by
  rw [parseType, text_eq hall (here h) hword, ok_bind, findBodyOpen_behind hall h, hend]
  rfl

/-- **Types** with a body are declared once it is closed. -/
theorem parseType_calls (h : all = past.reverse ++ t :: ts) (hword : t.lexeme = .word word)
    (hend : Outline.passHeader 0 (t :: past) ts = .body past' brace rest') :
    Calls all nested .type past' brace
      (fun members closing pos =>
        (((Owner.body (Outline.typeKind word) t.start).declare brace closing members).head?, pos))
      (parseType source (all.map Token.raw) nested past.length) := by
  obtain ⟨-, following, rfl, rfl⟩ := Outline.passHeader_body hend
  have hbrace : all = (following.reverse ++ t :: past).reverse ++ brace :: rest' := by
    rw [h]
    simp
  rw [parseType, text_eq hall (here h) hword, ok_bind, findBodyOpen_behind hall h, hend, ok_bind,
    headerIndex]
  dsimp only
  rw [get_raw (here h), ok_bind, get_raw (here hbrace), ok_bind]
  refine (parseBody_calls nested .type hbrace).bind
    fun members more closing later pos hclosing => ?_
  have hstart := hall.start_le_stop hclosing (t := t) (by simp)
  have hstop := hall.behind hclosing (t := brace) (by simp)
  dsimp only [Token.raw]
  rw [sub_eq hstart, ok_bind, sub_eq hstop]
  rfl

/-- **Functions** without a body end behind their last token. -/
theorem parseFunction_bare (scope : Outline.Scope) (modifiers : Modifiers)
    (h : all = past.reverse ++ t :: ts) (hword : t.lexeme = .word word)
    (hend : Outline.passHeader 0 (t :: past) ts = .bare past' rest') :
    parseFunction source (all.map Token.raw) nested past.length scope modifiers =
      .ok ({ kind := some (Outline.functionKind word scope modifiers)
             range := some (ByteRange.between t.start (Outline.lastStop past')) },
        past'.length) := by
  have hadvances := Outline.passHeader_advances 0 (t :: past) ts
  rw [hend] at hadvances
  obtain ⟨following, rfl, rfl⟩ := hadvances
  have hbreak := Token.isLineBreak_of_word hword
  have hback : all = (following.reverse ++ t :: past).reverse ++ rest' := by
    rw [h]
    simp [Outline.HeaderEnd.cursor]
  rw [parseFunction, text_eq hall (here h) hword, ok_bind]
  dsimp only
  rw [get_raw (here h), ok_bind, findBodyOpen_behind hall h, hend, ok_bind, headerIndex]
  dsimp only
  rw [endBefore_eq hbreak hback, ok_bind, Token.raw, sub_eq (hall.le_lastStop hbreak hback)]
  rfl

/-- **Functions** with a body are declared once it is closed. -/
theorem parseFunction_calls (scope : Outline.Scope) (modifiers : Modifiers)
    (h : all = past.reverse ++ t :: ts) (hword : t.lexeme = .word word)
    (hend : Outline.passHeader 0 (t :: past) ts = .body past' brace rest') :
    Calls all nested .code past' brace
      (fun members closing pos =>
        ({ kind := some (Outline.functionKind word scope modifiers)
           range := some (ByteRange.between t.start closing.stop)
           bodyLength := some (closing.start - brace.stop)
           children := members }, pos))
      (parseFunction source (all.map Token.raw) nested past.length scope modifiers) := by
  obtain ⟨-, following, rfl, rfl⟩ := Outline.passHeader_body hend
  have hbrace : all = (following.reverse ++ t :: past).reverse ++ brace :: rest' := by
    rw [h]
    simp
  rw [parseFunction, text_eq hall (here h) hword, ok_bind]
  dsimp only
  rw [get_raw (here h), ok_bind, findBodyOpen_behind hall h, hend, ok_bind, headerIndex]
  dsimp only
  rw [get_raw (here hbrace), ok_bind]
  refine (parseBody_calls nested .code hbrace).bind
    fun members more closing later pos hclosing => ?_
  have hstart := hall.start_le_stop hclosing (t := t) (by simp)
  have hstop := hall.behind hclosing (t := brace) (by simp)
  dsimp only [Token.raw]
  rw [sub_eq hstart, ok_bind, sub_eq hstop]
  rfl

/-- What a variable comes to, by how its tokens are passed. -/
def VariableAgrees (all : List Token) (nested : Nested) (found : Outline.VariableEnd)
    (x : Checked ParseError (Nat × Option Nat × Nat)) : Prop :=
  match found with
  | .bare past _ => x = .ok (Outline.lastStop past, none, past.length)
  | .accessors past brace _ =>
      Calls all nested .code past brace
        (fun _ closing pos => (closing.stop, some (closing.start - brace.stop), pos)) x

/-- A curly bracket opens accessors, but behind an assignment only with an observer. -/
theorem opensAccessors_eq (depth : Nat) (assigned : Bool) (h : all = past.reverse ++ t :: ts) :
    (both (t.isMark '{' && decide (depth = 0)) <|
      if assigned then
        nextWordIs source (all.map Token.raw) (past.length + 1) Outline.observerWords
      else pure true) =
        .ok (t.isMark '{' && decide (depth = 0) &&
          (!assigned || Outline.nextWordIsOf Outline.observerWords ts)) := by
  refine both_eq fun _ => ?_
  cases assigned with
  | true => exact nextWordIs_eq hall _ (pass h)
  | false => rfl

/-- An `=` outside of brackets assigns, unless it belongs to a comparison. -/
theorem assigns_eq (depth : Nat) (h : all = past.reverse ++ t :: ts) :
    both (t.isMark '=' && decide (depth = 0))
        (isAssignment source (all.map Token.raw) past.length) =
      .ok (decide (t.lexeme = .assign ∧ depth = 0)) := by
  have hboth : both (t.isMark '=' && decide (depth = 0))
      (isAssignment source (all.map Token.raw) past.length) =
        .ok (t.isMark '=' && decide (depth = 0) && (t.lexeme == .assign)) := by
    refine both_eq fun hmark => isAssignment_eq hall (here h) ?_
    simpa [Token.isMark] using (Bool.and_eq_true_iff.mp hmark).1
  rw [hboth]
  congr 1
  rw [Bool.eq_iff_iff, decide_eq_true_iff]
  simp only [Bool.and_eq_true, decide_eq_true_eq, beq_iff_eq]
  constructor
  · rintro ⟨⟨-, hdepth⟩, hassign⟩
    exact ⟨hassign, hdepth⟩
  · rintro ⟨hassign, hdepth⟩
    exact ⟨⟨by simp [Token.isMark, Token.mark?, hassign], hdepth⟩, hassign⟩

/-- A line break outside of brackets ends a variable that does not go on. -/
theorem stops_eq (depth : Nat) (assigned : Bool) (h : all = past.reverse ++ t :: ts) :
    (both (t.isLineBreak && decide (depth = 0)) do
      let continues ← variableContinues source (all.map Token.raw) past.length assigned
      pure !continues) =
        .ok (t.isLineBreak && decide (depth = 0) &&
          !Outline.variableContinues assigned past ts) := by
  refine both_eq fun hbreak => ?_
  rw [variableContinues_eq hall assigned h (Bool.and_eq_true_iff.mp hbreak).1]
  rfl

/-- **Variables** are passed as they should be. -/
theorem variableLoop_agrees (depth : Nat) (assigned : Bool) (h : all = past.reverse ++ rest) :
    VariableAgrees all nested (Outline.passVariable depth assigned past rest)
      (variableLoop source (all.map Token.raw) nested depth assigned (Outline.lastStop past)
        past.length) := by
  induction rest generalizing depth assigned past with
  | nil =>
      rw [variableLoop, dif_neg (not_lt_length h)]
      rfl
  | cons t ts ih =>
      have hplace := here h
      have hnext := pass h
      have hbehind : (if t.isLineBreak = true then Outline.lastStop past else t.raw.stop) =
          Outline.lastStop (t :: past) := (lastStop_cons t past).symm
      rw [variableLoop, dif_pos (lt_length hplace), get_raw hplace, ok_bind, isNewline_raw,
        isPunct_here hall (by decide) hplace, isPunct_here hall (by decide) hplace,
        isPunct_here hall (by decide) hplace, isPunctOf_here hall (by decide) hplace,
        isPunctOf_here hall (by decide) hplace, opensAccessors_eq hall depth assigned h, ok_bind,
        assigns_eq hall depth h, ok_bind, stops_eq hall depth assigned h, ok_bind, hbehind,
        Outline.passVariable]
      dsimp only
      by_cases hbrace : (t.isMark '{' && decide (depth = 0) &&
          (!assigned || Outline.nextWordIsOf Outline.observerWords ts)) = true
      · rw [if_pos hbrace, if_pos hbrace]
        refine (parseBody_calls nested .code h).bind
          fun members more closing later pos hclosing => ?_
        have hstop := hall.behind hclosing (t := t) (by simp)
        dsimp only [Token.raw]
        rw [sub_eq hstop]
        rfl
      rw [if_neg hbrace, if_neg hbrace]
      by_cases hopen : t.isMarkOf ['(', '[', '{'] = true
      · rw [if_pos hopen, if_pos hopen]
        exact ih (depth + 1) assigned hnext
      rw [if_neg hopen, if_neg hopen]
      -- a bracket without a partner ends the variable before it
      by_cases hclose : t.isMarkOf [')', ']', '}'] = true
      · rw [if_pos hclose, if_pos hclose]
        by_cases hdepth : depth = 0
        · rw [if_pos hdepth, if_pos hdepth]
          rfl
        · rw [if_neg hdepth, if_neg hdepth, sub_eq (Nat.pos_of_ne_zero hdepth), ok_bind]
          exact ih (depth - 1) assigned hnext
      rw [if_neg hclose, if_neg hclose]
      by_cases hend : (t.isMark ';' && decide (depth = 0)) = true
      · rw [if_pos hend, if_pos hend]
        rfl
      rw [if_neg hend, if_neg hend]
      by_cases hassign : t.lexeme = .assign ∧ depth = 0
      · rw [if_pos (decide_eq_true hassign), if_pos hassign]
        exact ih depth true hnext
      rw [if_neg (mt of_decide_eq_true hassign), if_neg hassign]
      by_cases hstop : (t.isLineBreak && decide (depth = 0) &&
          !Outline.variableContinues assigned past ts) = true
      · rw [if_pos hstop, if_pos hstop]
        rfl
      · rw [if_neg hstop, if_neg hstop]
        exact ih depth assigned hnext

/-- A variable begins behind its word. -/
theorem variableLoop_keyword (h : all = past.reverse ++ t :: ts) (hword : t.lexeme = .word word) :
    VariableAgrees all nested (Outline.passVariable 0 false (t :: past) ts)
      (variableLoop source (all.map Token.raw) nested 0 false t.stop (past.length + 1)) := by
  have hstop : t.stop = Outline.lastStop (t :: past) := by
    rw [lastStop_cons, Token.isLineBreak_of_word hword, if_neg (by decide)]
  rw [hstop]
  exact variableLoop_agrees hall nested 0 false (pass h)

/-- **Variables** without accessors end behind their last token. -/
theorem parseVariable_bare (scope : Outline.Scope) (modifiers : Modifiers)
    (h : all = past.reverse ++ t :: ts) (hword : t.lexeme = .word word)
    (hend : Outline.passVariable 0 false (t :: past) ts = .bare past' rest') :
    parseVariable source (all.map Token.raw) nested past.length scope modifiers =
      .ok ({ kind := some (Outline.variableKind scope modifiers)
             range := some (ByteRange.between t.start (Outline.lastStop past'))
             setterAccessibility := modifiers.setterAccessibility },
        past'.length) := by
  have hloop := variableLoop_keyword hall nested h hword
  have hadvances := Outline.passVariable_advances 0 false (t :: past) ts
  rw [hend] at hadvances hloop
  obtain ⟨following, rfl, rfl⟩ := hadvances
  have hback : all = (following.reverse ++ t :: past).reverse ++ rest' := by
    rw [h]
    simp [Outline.VariableEnd.cursor]
  have hle := hall.le_lastStop (Token.isLineBreak_of_word hword) hback
  rw [parseVariable, get_raw (here h), ok_bind, Token.raw]
  dsimp only
  rw [hloop, ok_bind]
  dsimp only
  rw [sub_eq hle]
  rfl

/-- **Variables** with accessors are declared once these are closed. -/
theorem parseVariable_calls (scope : Outline.Scope) (modifiers : Modifiers)
    (h : all = past.reverse ++ t :: ts) (hword : t.lexeme = .word word)
    (hend : Outline.passVariable 0 false (t :: past) ts = .accessors past' brace rest') :
    Calls all nested .code past' brace
      (fun _ closing pos =>
        ({ kind := some (Outline.variableKind scope modifiers)
           range := some (ByteRange.between t.start closing.stop)
           bodyLength := some (closing.start - brace.stop)
           setterAccessibility := modifiers.setterAccessibility }, pos))
      (parseVariable source (all.map Token.raw) nested past.length scope modifiers) := by
  have hloop := variableLoop_keyword hall nested h hword
  obtain ⟨-, following, rfl, rfl⟩ := Outline.passVariable_accessors hend
  rw [hend] at hloop
  rw [parseVariable, get_raw (here h), ok_bind, Token.raw]
  dsimp only
  refine Calls.bind hloop fun members more closing later pos hclosing => ?_
  have hstart := hall.start_le_stop hclosing (t := t) (by simp)
  dsimp only
  rw [sub_eq hstart]
  rfl

end

/-- What a round comes to, by the step of the reader with a list of open braces: it is refused,
it goes on in the same body, it calls the scanner for a body that is entered, or it leaves the
body. -/
inductive Agrees (all : List Token) (nested : Nested) (s : State) :
    Except ParseError State → Checked ParseError Round → Prop
  | refused (e : ParseError) : Agrees all nested s (.error e) (refuse e)
  | passed {next : State} (hscope : next.scope = s.scope) (hframes : next.frames = s.frames) :
      Agrees all nested s (.ok next)
        (.ok (.more next.modifiers next.found.reverse next.past.length))
  | entered {owner : Owner} {inside : Outline.Scope} {past rest : List Token} {brace : Token}
      {round : Checked ParseError Round}
      (hcalls : Calls all nested inside past brace
        (fun members closing pos =>
          Round.more {} (s.found.reverse ++ owner.declare brace closing members) pos) round) :
      Agrees all nested s (.ok (s.enter owner inside past brace rest)) round
  | left {frame : Outline.Frame} {frames : List Outline.Frame} {closing : Token}
      {rest : List Token} (hframes : s.frames = frame :: frames) :
      Agrees all nested s
        (.ok { past := closing :: s.past, rest := rest, scope := frame.scope, frames := frames,
               found := frame.close closing s.found })
        (.ok (.closed (s.past.length + 1)))

section

variable (hall : Layout source all) (nested : Nested) {s : State} {word : String}

include hall

/-- A type is its header, and a body if the header ends at a curly bracket. -/
theorem readType_agrees (h : all = s.past.reverse ++ t :: ts) (hword : t.lexeme = .word word) :
    Agrees all nested s (.ok (s.readType word t ts)) (do
      let (found, after) ← parseType source (all.map Token.raw) nested s.past.length
      pure (.more {} (s.found.reverse ++ found.toList) after)) := by
  unfold State.readType
  split
  next past brace rest hend =>
    exact .entered ((parseType_calls hall nested h hword hend).bind fun _ _ _ _ _ _ => rfl)
  next past rest hend =>
    have hpassed : Agrees all nested s (.ok (s.settle past rest))
        (.ok (.more {} s.found.reverse past.length)) := .passed rfl rfl
    rw [parseType_bare hall nested h hword hend, ok_bind]
    dsimp only [Option.toList_none]
    rw [List.append_nil]
    exact hpassed

/-- So is a function. -/
theorem readFunction_agrees (h : all = s.past.reverse ++ t :: ts) (hword : t.lexeme = .word word) :
    Agrees all nested s (.ok (s.readFunction word t ts)) (do
      let (found, after) ←
        parseFunction source (all.map Token.raw) nested s.past.length s.scope s.modifiers
      pure (.more {} (s.found.reverse ++ [found]) after)) := by
  unfold State.readFunction
  dsimp only
  split
  next past brace rest hend =>
    have hcalls := parseFunction_calls hall nested s.scope s.modifiers h hword hend
    exact .entered (hcalls.bind fun _ _ _ _ _ _ => rfl)
  next past rest hend =>
    rw [parseFunction_bare hall nested s.scope s.modifiers h hword hend, ok_bind]
    dsimp only
    rw [← List.reverse_cons]
    exact .passed rfl rfl

/-- A variable is passed up to its accessors, and they are a call like a body. -/
theorem readVariable_agrees (h : all = s.past.reverse ++ t :: ts) (hword : t.lexeme = .word word) :
    Agrees all nested s (.ok (s.readVariable t ts)) (do
      let (found, after) ←
        parseVariable source (all.map Token.raw) nested s.past.length s.scope s.modifiers
      pure (.more {} (s.found.reverse ++ [found]) after)) := by
  unfold State.readVariable
  dsimp only
  split
  next past brace rest hend =>
    have hcalls := parseVariable_calls hall nested s.scope s.modifiers h hword hend
    exact .entered (hcalls.bind fun _ _ _ _ _ _ => rfl)
  next past rest hend =>
    rw [parseVariable_bare hall nested s.scope s.modifiers h hword hend, ok_bind]
    dsimp only
    rw [← List.reverse_cons]
    exact .passed rfl rfl

/-- **Words.** -/
theorem parseWord_agrees (h : all = s.past.reverse ++ t :: ts) (hword : t.lexeme = .word word) :
    Agrees all nested s (.ok (s.readWord word t ts))
      (parseWord source (all.map Token.raw) nested s.scope s.modifiers s.found.reverse
        s.past.length) := by
  -- what the round asks of the tokens around the word
  have hnext := pass h
  have hclass : both (word == "class")
      (nextWordIs source (all.map Token.raw) (s.past.length + 1) Outline.classModifierFollowers) =
        .ok (word == "class" && Outline.nextWordIsOf Outline.classModifierFollowers ts) :=
    both_eq fun _ => nextWordIs_eq hall _ hnext
  have hsetter : skipSetterSuffix source (all.map Token.raw) (s.past.length + 1) =
      .ok ((Outline.setterSuffix? (t :: s.past) ts).map fun c => c.past.length) :=
    skipSetterSuffix_eq hall hnext
  have htype : both (Outline.typeIntroducers.contains word)
      (startsType (all.map Token.raw) s.past.length) =
        .ok (Outline.typeIntroducers.contains word && Outline.startsType s.past ts) :=
    both_eq fun _ => startsType_eq hall h
  have hfunction : both (Outline.functionIntroducers.contains word)
      (startsFunction (all.map Token.raw) s.past.length) =
        .ok (Outline.functionIntroducers.contains word && Outline.startsFunction s.past) :=
    both_eq fun _ => startsFunction_eq hall h
  have harguments : skipArguments (all.map Token.raw) (s.past.length + 1) =
      .ok (Outline.skipArguments (t :: s.past) ts).past.length := skipArguments_eq hall hnext
  have hone : Agrees all nested s (.ok (s.moveTo ⟨t :: s.past, ts⟩))
      (.ok (.more s.modifiers s.found.reverse (s.past.length + 1))) := .passed rfl rfl
  have hsettled : Agrees all nested s (.ok (s.settle (t :: s.past) ts))
      (.ok (.more {} s.found.reverse (s.past.length + 1))) := .passed rfl rfl
  rw [parseWord, text_eq hall (here h) hword, ok_bind, hclass, ok_bind, hsetter, ok_bind, htype,
    ok_bind, hfunction, ok_bind, isBindingPattern_eq hall h, ok_bind, harguments, ok_bind]
  unfold State.readWord
  dsimp only
  by_cases hstatic : word = "static"
  · have hpassed : Agrees all nested s
        (.ok { s.moveTo ⟨t :: s.past, ts⟩ with modifiers := { s.modifiers with isStatic := true } })
        (.ok (.more { s.modifiers with isStatic := true } s.found.reverse (s.past.length + 1))) :=
      .passed rfl rfl
    rw [if_pos hstatic, if_pos hstatic]
    exact hpassed
  rw [if_neg hstatic, if_neg hstatic]
  -- the words it knows, in the order in which both ask for them
  have hmodifies : (word == "class" && Outline.nextWordIsOf Outline.classModifierFollowers ts) =
      true ↔ word = "class" ∧ Outline.nextWordIsOf Outline.classModifierFollowers ts = true := by
    simp
  by_cases hmodifier : word = "class" ∧
      Outline.nextWordIsOf Outline.classModifierFollowers ts = true
  · have hpassed : Agrees all nested s
        (.ok { s.moveTo ⟨t :: s.past, ts⟩ with modifiers := { s.modifiers with isClass := true } })
        (.ok (.more { s.modifiers with isClass := true } s.found.reverse (s.past.length + 1))) :=
      .passed rfl rfl
    rw [if_pos (hmodifies.mpr hmodifier), if_pos hmodifier]
    exact hpassed
  rw [if_neg (mt hmodifies.mp hmodifier), if_neg hmodifier]
  by_cases haccess : Outline.accessLevels.contains word = true
  · rw [if_pos haccess, if_pos haccess]
    cases Outline.setterSuffix? (t :: s.past) ts with
    | some after => exact .passed rfl rfl
    | none => exact hone
  rw [if_neg haccess, if_neg haccess]
  by_cases hstarts : Outline.typeIntroducers.contains word = true ∧
      Outline.startsType s.past ts = true
  · rw [if_pos (Bool.and_eq_true_iff.mpr hstarts), if_pos hstarts]
    exact readType_agrees hall nested h hword
  rw [if_neg (mt Bool.and_eq_true_iff.mp hstarts), if_neg hstarts]
  by_cases hbegins : Outline.functionIntroducers.contains word = true ∧
      Outline.startsFunction s.past = true
  · rw [if_pos (Bool.and_eq_true_iff.mpr hbegins), if_pos hbegins]
    exact readFunction_agrees hall nested h hword
  rw [if_neg (mt Bool.and_eq_true_iff.mp hbegins), if_neg hbegins]
  by_cases hvariable : word = "let" ∨ word = "var"
  · rw [if_pos hvariable, if_pos hvariable]
    by_cases hpattern : Outline.isBindingPattern s.past = true
    · rw [if_pos hpattern, if_pos hpattern]
      exact hone
    · rw [if_neg hpattern, if_neg hpattern]
      exact readVariable_agrees hall nested h hword
  rw [if_neg hvariable, if_neg hvariable]
  by_cases hdeclaration : Outline.declarationModifiers.contains word = true
  · rw [if_pos hdeclaration, if_pos hdeclaration]
    exact .passed rfl rfl
  · rw [if_neg hdeclaration, if_neg hdeclaration]
    exact hsettled

/-- A round is given the brace that opened the body. -/
abbrev opened? (s : State) : Option RawToken := s.frames.head?.map fun frame => frame.brace.raw

/-- **Marks.** -/
theorem mark_agrees {c : Char} (h : all = s.past.reverse ++ t :: ts) (hmark : t.lexeme = .mark c) :
    Agrees all nested s (Outline.step s t ts)
      (parseItem source (all.map Token.raw) nested s.scope (opened? s) s.modifiers
        s.found.reverse s.past.length) := by
  have hascii : c.toNat < 0x80 :=
    hall.ascii (t := t) (by rw [h]; simp) (by rw [Token.mark?, hmark])
  have hkind : t.raw.kind = .punct c.toUInt8 := congrArg Lexeme.kind hmark
  have hattribute : skipAttribute (all.map Token.raw) s.past.length =
      .ok (Outline.skipAttribute (t :: s.past) ts).past.length := skipAttribute_eq hall h
  rw [parseItem, get_raw (here h), ok_bind, hkind]
  unfold Outline.step
  rw [hmark]
  dsimp only
  rw [toUInt8_beq hascii (by decide), toUInt8_beq hascii (by decide),
    toUInt8_beq hascii (by decide), toUInt8_beq hascii (by decide), hattribute, ok_bind]
  by_cases hclose : c = '}'
  · rw [if_pos hclose, if_pos (beq_iff_eq.mpr hclose)]
    cases hframes : s.frames with
    | nil =>
        have hopened : opened? s = none := by rw [opened?, hframes, List.head?_nil, Option.map_none]
        rw [hopened]
        exact .refused _
    | cons frame frames =>
        have hopened : opened? s = some frame.brace.raw := by
          rw [opened?, hframes, List.head?_cons, Option.map_some]
        rw [hopened]
        exact .left hframes
  rw [if_neg hclose, if_neg (mt beq_iff_eq.mp hclose)]
  by_cases hopen : c = '{'
  · have hcalls : Calls all nested (Outline.blockScope s.scope) s.past t
        (fun members _ pos => (members, pos))
        (nested (Outline.blockScope s.scope) t.raw (s.past.length + 1)) :=
      ⟨fun _ hnested => hnested, fun _ _ _ _ _ hnested => hnested⟩
    rw [if_pos hopen, if_pos (beq_iff_eq.mpr hopen)]
    exact .entered (hcalls.bind fun _ _ _ _ _ _ => rfl)
  rw [if_neg hopen, if_neg (mt beq_iff_eq.mp hopen)]
  by_cases hend : c = ';'
  · rw [if_pos hend, if_pos (beq_iff_eq.mpr hend)]
    exact .passed rfl rfl
  rw [if_neg hend, if_neg (mt beq_iff_eq.mp hend)]
  by_cases hat : c = '@'
  · rw [if_pos hat, if_pos (beq_iff_eq.mpr hat)]
    exact .passed rfl rfl
  · rw [if_neg hat, if_neg (mt beq_iff_eq.mp hat)]
    exact .passed rfl rfl

/-- **Every round agrees with a step.** -/
theorem parseItem_agrees (h : all = s.past.reverse ++ t :: ts) :
    Agrees all nested s (Outline.step s t ts)
      (parseItem source (all.map Token.raw) nested s.scope (opened? s) s.modifiers
        s.found.reverse s.past.length) := by
  cases hlexeme : t.lexeme with
  | mark c => exact mark_agrees hall nested h hlexeme
  | word text =>
      rw [parseItem, get_raw (here h), ok_bind, Token.raw, Outline.step, hlexeme]
      exact parseWord_agrees hall nested h hlexeme
  | literal | lineBreak | assign | query =>
      rw [parseItem, get_raw (here h), ok_bind, Token.raw, Outline.step, hlexeme]
      exact .passed rfl rfl

end

end Scanner

end DeclLint
