import DeclLint.Proofs.Outline.Nesting

/-!
# What the outline reader passes in one go

Some tokens bring others with them that are passed in one go: an attribute its name and
arguments, a modifier its arguments, the word of a type or function its header, and the word
of a variable its definition.  What is passed is said here without the scans that pass it.
A stretch begins behind the word, with no bracket open.  It goes on up to the first place
where no bracket is open and something stands that ends it, or else to the end of the tokens.
Brackets are counted, and a closing mark closes whatever is open, of its kind or not.

* `Outline.level` — how many brackets are open;
* `Outline.Passes` — what a scan passes up to its stop, and nothing else
  (`Passes.unique`, `exists_passes`);
* `Outline.Introduces`, `Outline.Takes` — which tokens bring others with them, and which
  others;
* `Outline.skipAttribute_takes`, `Outline.passHeader_takes`, `Outline.passVariable_takes` —
  the scans pass just that.
-/

namespace DeclLint

namespace Outline

/-- How many brackets are open behind a token.  The brackets of some kinds are counted, all
alike, and a closing mark counts for nothing where none is open. -/
def deepen (counted : Bracket → Bool) (depth : Nat) (t : Token) : Nat :=
  if t.opens?.any counted then depth + 1
  else if t.closes?.any counted then depth - 1
  else depth

/-- How many brackets are open behind some tokens. -/
def level (counted : Bracket → Bool) (ts : List Token) : Nat := ts.foldl (deepen counted) 0

/-- Every bracket counts. -/
def everyBracket (_ : Bracket) : Bool := true

/-- Only round and square brackets count. -/
def groupBracket (b : Bracket) : Bool := b != .brace

/-- A scan that has passed the tokens `front` passes some more and leaves a rest.  It ends
where no bracket is open and the next token stops it, or where the tokens end. -/
inductive Passes (counted : Bracket → Bool) (stops : List Token → Token → List Token → Prop) :
    List Token → List Token → List Token → Prop
  | finish (front : List Token) : Passes counted stops front [] []
  | stop {front : List Token} {t : Token} {rest : List Token} (hlevel : level counted front = 0)
      (hstop : stops front t rest) : Passes counted stops front [] (t :: rest)
  | pass {front passed rest : List Token} {t : Token}
      (hgoes : level counted front = 0 → ¬ stops front t (passed ++ rest))
      (tail : Passes counted stops (front ++ [t]) passed rest) :
      Passes counted stops front (t :: passed) rest

/-- What ends a header where no bracket is open: a curly bracket, a semicolon, or a line
break after which it does not go on.  `past` is what stands before the header. -/
def HeaderStops (past front : List Token) (t : Token) (rest : List Token) : Prop :=
  t.lexeme = .mark '{' ∨ t.lexeme = .mark '}' ∨ t.lexeme = .mark ';' ∨
    (t.lexeme = .lineBreak ∧ headerContinues (front.reverse ++ past) rest = false)

/-- Whether some tokens assign a value where no bracket is open.  `depth` brackets are open
before them. -/
def assigns (depth : Nat) : List Token → Bool
  | [] => false
  | t :: ts => decide (t.lexeme = .assign ∧ depth = 0) || assigns (deepen everyBracket depth t) ts

/-- What ends a variable where no bracket is open: the curly bracket of its accessors, which
comes before a value or begins with an observer, any closing mark, a semicolon, or a line
break after which it does not go on. -/
def VariableStops (past front : List Token) (t : Token) (rest : List Token) : Prop :=
  (t.lexeme = .mark '{' ∧ (assigns 0 front = false ∨ nextWordIsOf observerWords rest = true)) ∨
    t.closes?.isSome = true ∨ t.lexeme = .mark ';' ∨
    (t.lexeme = .lineBreak ∧
      variableContinues (assigns 0 front) (front.reverse ++ past) rest = false)

/-- A group that has begun ends where none of its brackets is open. -/
def GroupStops (front : List Token) (_ : Token) (_ : List Token) : Prop := front ≠ []

/-- An argument list, or nothing where none begins.  Only its round and square brackets are
counted. -/
inductive IsArguments : List Token → List Token → Prop
  | missing {rest : List Token} (h : rest.head?.any (Token.isMark '(') = false) :
      IsArguments [] rest
  | group {first : Token} {inner rest : List Token} (hfirst : first.lexeme = .mark '(')
      (h : Passes groupBracket GroupStops [] (first :: inner) rest) :
      IsArguments (first :: inner) rest

/-- What a token may bring with it. -/
inductive Introduction where
  /-- `@` is followed by a name and arguments. -/
  | decoration
  /-- A modifier is followed by arguments. -/
  | modifier
  /-- The word of a type or function is followed by its header. -/
  | header
  /-- The word of a variable is followed by its definition. -/
  | definition
deriving DecidableEq, Repr

/-- Which tokens bring others with them.  `past` is what stands before the token, last token
first, and `rest` what follows it. -/
inductive Introduces (past : List Token) (t : Token) (rest : List Token) : Introduction → Prop
  | decoration (hmark : t.lexeme = .mark '@') (hname : rest.head?.any Token.isWord = true) :
      Introduces past t rest .decoration
  | modifier {word : String} (hword : t.lexeme = .word word) (h : word ∈ declarationModifiers) :
      Introduces past t rest .modifier
  | type {word : String} (hword : t.lexeme = .word word) (h : word ∈ typeIntroducers)
      (hstarts : startsType past rest = true)
      (hclass : word = "class" → nextWordIsOf classModifierFollowers rest = false) :
      Introduces past t rest .header
  | function {word : String} (hword : t.lexeme = .word word) (h : word ∈ functionIntroducers)
      (hstarts : startsFunction past = true) : Introduces past t rest .header
  | definition {word : String} (hword : t.lexeme = .word word) (h : word = "let" ∨ word = "var")
      (hpattern : isBindingPattern past = false) : Introduces past t rest .definition

/-- What a token brings with it.  `past` ends with the token. -/
inductive Takes (past : List Token) : Introduction → List Token → List Token → Prop
  | decoration {name : Token} {arguments rest : List Token} (hname : name.isWord = true)
      (h : IsArguments arguments rest) : Takes past .decoration (name :: arguments) rest
  | modifier {arguments rest : List Token} (h : IsArguments arguments rest) :
      Takes past .modifier arguments rest
  | header {passed rest : List Token}
      (h : Passes everyBracket (HeaderStops past) [] passed rest) :
      Takes past .header passed rest
  | definition {passed rest : List Token}
      (h : Passes everyBracket (VariableStops past) [] passed rest) :
      Takes past .definition passed rest

section Unique

variable {counted : Bracket → Bool} {stops : List Token → Token → List Token → Prop}
  {front passed passed' rest rest' past : List Token} {t : Token} {kind kind' : Introduction}

/-- A scan passes one stretch only. -/
theorem Passes.unique (h : Passes counted stops front passed rest)
    (h' : Passes counted stops front passed' rest') (heq : passed ++ rest = passed' ++ rest') :
    passed = passed' := by
  induction h generalizing passed' with
  | finish front =>
      obtain ⟨rfl, -⟩ := List.append_eq_nil_iff.mp heq.symm
      rfl
  | stop hlevel hstop =>
      cases h' with
      | finish => rfl
      | stop => rfl
      | pass hgoes tail =>
          obtain ⟨rfl, rfl⟩ := List.cons.inj heq
          exact absurd hstop (hgoes hlevel)
  | pass hgoes tail ih =>
      cases h' with
      | finish => simp at heq
      | stop hlevel hstop =>
          obtain ⟨rfl, rfl⟩ := List.cons.inj heq
          exact absurd hstop (hgoes hlevel)
      | pass hgoes' tail' =>
          obtain ⟨rfl, hrest⟩ := List.cons.inj heq
          rw [ih tail' hrest]

/-- Every scan ends somewhere. -/
theorem exists_passes (counted : Bracket → Bool)
    (stops : List Token → Token → List Token → Prop) (front ts : List Token) :
    ∃ passed rest, ts = passed ++ rest ∧ Passes counted stops front passed rest := by
  induction ts generalizing front with
  | nil => exact ⟨[], [], rfl, .finish front⟩
  | cons t ts ih =>
      by_cases hstop : level counted front = 0 ∧ stops front t ts
      · exact ⟨[], t :: ts, rfl, .stop hstop.1 hstop.2⟩
      · obtain ⟨passed, rest, rfl, htail⟩ := ih (front ++ [t])
        exact ⟨t :: passed, rest, rfl, .pass (fun hlevel hstops => hstop ⟨hlevel, hstops⟩) htail⟩

/-- Two readings of the arguments at one place are one. -/
theorem IsArguments.unique (h : IsArguments passed rest) (h' : IsArguments passed' rest')
    (heq : passed ++ rest = passed' ++ rest') : passed = passed' := by
  cases h with
  | missing hmissing =>
      cases h' with
      | missing => rfl
      | group hfirst _ =>
          rw [List.nil_append] at heq
          simp [heq, Token.isMark, Token.mark?, hfirst] at hmissing
  | group hfirst hgroup =>
      cases h' with
      | missing hmissing =>
          rw [List.nil_append] at heq
          simp [← heq, Token.isMark, Token.mark?, hfirst] at hmissing
      | group _ hgroup' => exact hgroup.unique hgroup' heq

/-- Arguments end somewhere, be it at once. -/
theorem exists_isArguments (ts : List Token) :
    ∃ passed rest, ts = passed ++ rest ∧ IsArguments passed rest := by
  cases hround : ts.head?.any (Token.isMark '(') with
  | false => exact ⟨[], ts, rfl, .missing hround⟩
  | true =>
      cases ts with
      | nil => simp at hround
      | cons first ts =>
          obtain ⟨passed, rest, hsplit, hpasses⟩ :=
            exists_passes groupBracket GroupStops [] (first :: ts)
          have hfirst : first.lexeme = .mark '(' :=
            (Token.isMark_iff (by decide) (by decide)).mp (by simpa using hround)
          cases hpasses with
          | finish => cases hsplit
          | stop _ hstop => exact absurd rfl hstop
          | pass hgoes tail =>
              obtain ⟨rfl, rfl⟩ := List.cons.inj hsplit
              exact ⟨_, _, rfl, .group hfirst (.pass hgoes tail)⟩

/-- What a token brings with it is one stretch. -/
theorem Takes.unique (h : Takes past kind passed rest) (h' : Takes past kind passed' rest')
    (heq : passed ++ rest = passed' ++ rest') : passed = passed' := by
  cases h with
  | decoration _ harguments =>
      cases h' with
      | decoration _ harguments' =>
          obtain ⟨rfl, hrest⟩ := List.cons.inj heq
          rw [harguments.unique harguments' hrest]
  | modifier harguments =>
      cases h' with
      | modifier harguments' => exact harguments.unique harguments' heq
  | header hpasses =>
      cases h' with
      | header hpasses' => exact hpasses.unique hpasses' heq
  | definition hpasses =>
      cases h' with
      | definition hpasses' => exact hpasses.unique hpasses' heq

/-- A token that brings others with it finds them. -/
theorem Introduces.exists_takes (h : Introduces past t rest kind) (past' : List Token) :
    ∃ passed rest', rest = passed ++ rest' ∧ Takes past' kind passed rest' := by
  cases h with
  | decoration _ hname =>
      cases rest with
      | nil => simp at hname
      | cons name ts =>
          obtain ⟨arguments, rest', rfl, harguments⟩ := exists_isArguments ts
          exact ⟨name :: arguments, rest', rfl, .decoration (by simpa using hname) harguments⟩
  | modifier =>
      obtain ⟨arguments, rest', rfl, harguments⟩ := exists_isArguments rest
      exact ⟨arguments, rest', rfl, .modifier harguments⟩
  | type =>
      obtain ⟨passed, rest', rfl, hpasses⟩ := exists_passes everyBracket (HeaderStops past') [] rest
      exact ⟨passed, rest', rfl, .header hpasses⟩
  | function =>
      obtain ⟨passed, rest', rfl, hpasses⟩ := exists_passes everyBracket (HeaderStops past') [] rest
      exact ⟨passed, rest', rfl, .header hpasses⟩
  | definition =>
      obtain ⟨passed, rest', rfl, hpasses⟩ :=
        exists_passes everyBracket (VariableStops past') [] rest
      exact ⟨passed, rest', rfl, .definition hpasses⟩

end Unique

section Scans

variable {counted : Bracket → Bool} {front past rest ts : List Token} {t : Token} {b : Bracket}
  {depth : Nat}

theorem level_concat (counted : Bracket → Bool) (front : List Token) (t : Token) :
    level counted (front ++ [t]) = deepen counted (level counted front) t := by
  simp [level]

theorem deepen_of_opens (h : t.opens? = some b) (depth : Nat) :
    deepen counted depth t = if counted b = true then depth + 1 else depth := by
  have hcloses := Token.closes?_of_opens? h
  simp [deepen, h, hcloses]

theorem deepen_of_closes (h : t.closes? = some b) (depth : Nat) :
    deepen counted depth t = if counted b = true then depth - 1 else depth := by
  have hopens := Token.opens?_of_closes? h
  simp [deepen, h, hopens]

theorem deepen_of_plain (hopens : t.opens? = none) (hcloses : t.closes? = none) (depth : Nat) :
    deepen counted depth t = depth := by
  simp [deepen, hopens, hcloses]

/-- One more token assigns a value if it does so with no bracket open. -/
theorem assigns_concat (depth : Nat) (front : List Token) (t : Token) :
    assigns depth (front ++ [t]) = (assigns depth front ||
      decide (t.lexeme = .assign ∧ front.foldl (deepen everyBracket) depth = 0)) := by
  induction front generalizing depth with
  | nil => exact Bool.or_false _
  | cons u front ih =>
      rw [List.cons_append, assigns, assigns, ih, Bool.or_assoc]
      rfl

/-- A token opens a bracket, closes one, or does neither. -/
theorem bracket_cases (t : Token) :
    (∃ b, t.opens? = some b) ∨ (∃ b, t.closes? = some b) ∨
      (t.opens? = none ∧ t.closes? = none) := by
  cases hopens : t.opens? with
  | some b => exact .inl ⟨b, rfl⟩
  | none =>
      cases hcloses : t.closes? with
      | some b => exact .inr (.inl ⟨b, rfl⟩)
      | none => exact .inr (.inr ⟨rfl, rfl⟩)

theorem headerStops_of_opens (h : t.opens? = some b) :
    HeaderStops past front t rest ↔ b = .brace := by
  have hlexeme := Token.opens?_eq_some_iff.mp h
  cases b <;> simp [HeaderStops, hlexeme, Bracket.opening]

theorem headerStops_of_closes (h : t.closes? = some b) :
    HeaderStops past front t rest ↔ b = .brace := by
  have hlexeme := Token.closes?_eq_some_iff.mp h
  cases b <;> simp [HeaderStops, hlexeme, Bracket.closing]

theorem headerStops_of_plain (hopens : t.opens? = none) (hcloses : t.closes? = none) :
    HeaderStops past front t rest ↔ t.lexeme = .mark ';' ∨
      t.lexeme = .lineBreak ∧ headerContinues (front.reverse ++ past) rest = false := by
  have hopening : t.lexeme ≠ .mark '{' := fun h => by simp [Token.opens?, h] at hopens
  have hclosing : t.lexeme ≠ .mark '}' := fun h => by simp [Token.closes?, h] at hcloses
  simp [HeaderStops, hopening, hclosing]

/-- A header ends where it should. -/
theorem passHeader_of_stops (hstop : HeaderStops past front t rest) :
    (passHeader 0 (front.reverse ++ past) (t :: rest)).cursor =
      ⟨front.reverse ++ past, t :: rest⟩ := by
  rcases bracket_cases t with ⟨b, hopens⟩ | ⟨b, hcloses⟩ | ⟨hopens, hcloses⟩
  · rw [passHeader_of_opens _ _ _ hopens, if_pos ⟨(headerStops_of_opens hopens).mp hstop, rfl⟩]
    rfl
  · rw [passHeader_of_closes _ _ _ hcloses, if_pos ⟨(headerStops_of_closes hcloses).mp hstop, rfl⟩]
    rfl
  · rw [passHeader_of_plain _ _ _ hopens hcloses,
      if_pos ⟨rfl, (headerStops_of_plain hopens hcloses).mp hstop⟩]
    rfl

/-- A header goes on where nothing ends it. -/
theorem passHeader_of_goes (hgoes : depth = 0 → ¬ HeaderStops past front t rest) :
    passHeader depth (front.reverse ++ past) (t :: rest) =
      passHeader (deepen everyBracket depth t) (t :: (front.reverse ++ past)) rest := by
  rcases bracket_cases t with ⟨b, hopens⟩ | ⟨b, hcloses⟩ | ⟨hopens, hcloses⟩
  · rw [headerStops_of_opens hopens] at hgoes
    rw [passHeader_of_opens _ _ _ hopens, deepen_of_opens hopens,
      if_neg fun h => hgoes h.2 h.1]
    rfl
  · rw [headerStops_of_closes hcloses] at hgoes
    rw [passHeader_of_closes _ _ _ hcloses, deepen_of_closes hcloses,
      if_neg fun h => hgoes h.2 h.1]
    rfl
  · rw [headerStops_of_plain hopens hcloses] at hgoes
    rw [passHeader_of_plain _ _ _ hopens hcloses, deepen_of_plain hopens hcloses,
      if_neg fun h => hgoes h.1 h.2]

theorem variableStops_of_opens (h : t.opens? = some b) :
    VariableStops past front t rest ↔ b = .brace ∧
      (assigns 0 front = false ∨ nextWordIsOf observerWords rest = true) := by
  have hlexeme := Token.opens?_eq_some_iff.mp h
  have hcloses := Token.closes?_of_opens? h
  cases b <;> simp [VariableStops, hlexeme, hcloses, Bracket.opening]

theorem variableStops_of_closes (h : t.closes? = some b) : VariableStops past front t rest := by
  simp [VariableStops, h]

theorem variableStops_of_plain (hopens : t.opens? = none) (hcloses : t.closes? = none) :
    VariableStops past front t rest ↔ t.lexeme = .mark ';' ∨ t.lexeme = .lineBreak ∧
      variableContinues (assigns 0 front) (front.reverse ++ past) rest = false := by
  have hopening : t.lexeme ≠ .mark '{' := fun h => by simp [Token.opens?, h] at hopens
  simp [VariableStops, hopening, hcloses]

/-- A variable ends where it should. -/
theorem passVariable_of_stops (hstop : VariableStops past front t rest) :
    (passVariable 0 (assigns 0 front) (front.reverse ++ past) (t :: rest)).cursor =
      ⟨front.reverse ++ past, t :: rest⟩ := by
  rcases bracket_cases t with ⟨b, hopens⟩ | ⟨b, hcloses⟩ | ⟨hopens, hcloses⟩
  · obtain ⟨hbrace, hvalue⟩ := (variableStops_of_opens hopens).mp hstop
    rw [passVariable_of_opens _ _ _ _ hopens, if_pos ⟨hbrace, rfl, hvalue⟩]
    rfl
  · rw [passVariable_of_closes _ _ _ _ hcloses, if_pos rfl]
    rfl
  · rw [passVariable_of_plain _ _ _ _ hopens hcloses,
      if_pos ⟨rfl, (variableStops_of_plain hopens hcloses).mp hstop⟩]
    rfl

/-- A variable goes on where nothing ends it. -/
theorem passVariable_of_goes
    (hgoes : level everyBracket front = 0 → ¬ VariableStops past front t rest) :
    passVariable (level everyBracket front) (assigns 0 front) (front.reverse ++ past) (t :: rest) =
      passVariable (level everyBracket (front ++ [t])) (assigns 0 (front ++ [t]))
        (t :: (front.reverse ++ past)) rest := by
  have hassigns : ∀ c, t.lexeme = .mark c → assigns 0 (front ++ [t]) = assigns 0 front := by
    intro c hmark
    simp [assigns_concat, hmark]
  rw [level_concat]
  rcases bracket_cases t with ⟨b, hopens⟩ | ⟨b, hcloses⟩ | ⟨hopens, hcloses⟩
  · rw [variableStops_of_opens hopens] at hgoes
    rw [passVariable_of_opens _ _ _ _ hopens, deepen_of_opens hopens,
      if_neg fun h => hgoes h.2.1 ⟨h.1, h.2.2⟩, hassigns _ (Token.opens?_eq_some_iff.mp hopens)]
    rfl
  · rw [passVariable_of_closes _ _ _ _ hcloses, deepen_of_closes hcloses,
      if_neg fun h => hgoes h (variableStops_of_closes hcloses),
      hassigns _ (Token.closes?_eq_some_iff.mp hcloses)]
    rfl
  · rw [variableStops_of_plain hopens hcloses] at hgoes
    rw [passVariable_of_plain _ _ _ _ hopens hcloses, deepen_of_plain hopens hcloses,
      if_neg fun h => hgoes h.1 h.2, assigns_concat]
    rfl

/-- **Headers.**  The scan of a header passes what a header takes. -/
theorem passHeader_passes (front past rest : List Token) :
    ∃ passed rest', rest = passed ++ rest' ∧
      (passHeader (level everyBracket front) (front.reverse ++ past) rest).cursor =
        ⟨passed.reverse ++ (front.reverse ++ past), rest'⟩ ∧
      Passes everyBracket (HeaderStops past) front passed rest' := by
  induction rest generalizing front with
  | nil => exact ⟨[], [], rfl, rfl, .finish front⟩
  | cons t ts ih =>
      by_cases hstop : level everyBracket front = 0 ∧ HeaderStops past front t ts
      · obtain ⟨hlevel, hstop⟩ := hstop
        refine ⟨[], t :: ts, rfl, ?_, .stop hlevel hstop⟩
        rw [hlevel]
        exact passHeader_of_stops hstop
      · have hgoes := not_and.mp hstop
        obtain ⟨passed, rest', rfl, hcursor, htail⟩ := ih (front ++ [t])
        refine ⟨t :: passed, rest', rfl, ?_, .pass hgoes htail⟩
        rw [passHeader_of_goes hgoes, ← level_concat]
        simpa using hcursor

/-- **Variables.**  The scan of a variable passes what a variable takes. -/
theorem passVariable_passes (front past rest : List Token) :
    ∃ passed rest', rest = passed ++ rest' ∧
      (passVariable (level everyBracket front) (assigns 0 front) (front.reverse ++ past)
        rest).cursor = ⟨passed.reverse ++ (front.reverse ++ past), rest'⟩ ∧
      Passes everyBracket (VariableStops past) front passed rest' := by
  induction rest generalizing front with
  | nil => exact ⟨[], [], rfl, rfl, .finish front⟩
  | cons t ts ih =>
      by_cases hstop : level everyBracket front = 0 ∧ VariableStops past front t ts
      · obtain ⟨hlevel, hstop⟩ := hstop
        refine ⟨[], t :: ts, rfl, ?_, .stop hlevel hstop⟩
        rw [hlevel]
        exact passVariable_of_stops hstop
      · have hgoes := not_and.mp hstop
        obtain ⟨passed, rest', rfl, hcursor, htail⟩ := ih (front ++ [t])
        refine ⟨t :: passed, rest', rfl, ?_, .pass hgoes htail⟩
        rw [passVariable_of_goes hgoes]
        simpa using hcursor

/-- A group that has begun ends where the last of its brackets is closed. -/
theorem skipGroup_cons (hlevel : level groupBracket front ≠ 0) (past : List Token) (t : Token)
    (ts : List Token) :
    skipGroup (level groupBracket front) past (t :: ts) =
      if level groupBracket (front ++ [t]) = 0 then ⟨t :: past, ts⟩
      else skipGroup (level groupBracket (front ++ [t])) (t :: past) ts := by
  rw [level_concat]
  generalize level groupBracket front = depth at hlevel
  rcases bracket_cases t with ⟨b, hopens⟩ | ⟨b, hcloses⟩ | ⟨hopens, hcloses⟩
  · rw [skipGroup_of_opens _ _ _ hopens, deepen_of_opens hopens]
    cases b with
    | brace => exact (if_neg hlevel).symm
    | round | square => exact (if_neg (Nat.succ_ne_zero depth)).symm
  · rw [skipGroup_of_closes _ _ _ hcloses, deepen_of_closes hcloses]
    have hlast : depth ≤ 1 ↔ depth - 1 = 0 := by omega
    cases b with
    | brace => exact (if_neg hlevel).symm
    | round | square => simp [groupBracket, hlast]
  · rw [skipGroup_of_plain _ _ _ hopens hcloses, deepen_of_plain hopens hcloses, if_neg hlevel]

/-- **Groups.**  The scan of a group that has begun passes what is left of it. -/
theorem skipGroup_passes (hlevel : level groupBracket front ≠ 0) (past rest : List Token) :
    ∃ passed rest', rest = passed ++ rest' ∧
      skipGroup (level groupBracket front) past rest = ⟨passed.reverse ++ past, rest'⟩ ∧
      Passes groupBracket GroupStops front passed rest' := by
  induction rest generalizing front past with
  | nil => exact ⟨[], [], rfl, rfl, .finish front⟩
  | cons t ts ih =>
      rw [skipGroup_cons hlevel]
      split
      next hzero =>
        refine ⟨[t], ts, rfl, rfl, .pass (fun hclosed => absurd hclosed hlevel) ?_⟩
        cases ts with
        | nil => exact .finish _
        | cons u ts => exact .stop hzero (List.append_ne_nil_of_right_ne_nil front (by simp))
      next hopen =>
        obtain ⟨passed, rest', rfl, hcursor, htail⟩ := ih hopen (t :: past)
        refine ⟨t :: passed, rest', rfl, ?_, .pass (fun hclosed => absurd hclosed hlevel) htail⟩
        rw [hcursor]
        simp

/-- The scan of arguments passes what a token takes as its arguments. -/
theorem skipArguments_isArguments (past rest : List Token) :
    ∃ passed rest', rest = passed ++ rest' ∧
      skipArguments past rest = ⟨passed.reverse ++ past, rest'⟩ ∧ IsArguments passed rest' := by
  unfold skipArguments
  split
  next hround =>
    cases rest with
    | nil => simp at hround
    | cons first ts =>
        have hmark : first.isMark '(' = true := by simpa using hround
        have hopens : first.opens? = some .round := Token.opens?_of_isMark hmark
        have hlevel : level groupBracket [first] = 1 := deepen_of_opens hopens 0
        have hopen : level groupBracket [first] ≠ 0 := by simp [hlevel]
        have hscan : skipGroup 0 past (first :: ts) =
            skipGroup (level groupBracket [first]) (first :: past) ts := by
          rw [skipGroup_of_opens _ _ _ hopens, hlevel]
          rfl
        obtain ⟨passed, rest', rfl, hcursor, htail⟩ := skipGroup_passes hopen (first :: past) ts
        refine ⟨first :: passed, rest', rfl, ?_, ?_⟩
        · rw [hscan, hcursor]
          simp
        · exact .group (Token.opens?_eq_some_iff.mp hopens) (.pass (fun _ hstop => hstop rfl) htail)
  next hround => exact ⟨[], rest, rfl, rfl, .missing (by simpa using hround)⟩

/-- The scan of a header passes what a header takes. -/
theorem passHeader_takes (past rest : List Token) :
    ∃ passed rest', rest = passed ++ rest' ∧
      (passHeader 0 past rest).cursor = ⟨passed.reverse ++ past, rest'⟩ ∧
      Takes past .header passed rest' := by
  obtain ⟨passed, rest', hsplit, hcursor, hpasses⟩ := passHeader_passes [] past rest
  exact ⟨passed, rest', hsplit, hcursor, .header hpasses⟩

/-- The scan of a variable passes what a variable takes. -/
theorem passVariable_takes (past rest : List Token) :
    ∃ passed rest', rest = passed ++ rest' ∧
      (passVariable 0 false past rest).cursor = ⟨passed.reverse ++ past, rest'⟩ ∧
      Takes past .definition passed rest' := by
  obtain ⟨passed, rest', hsplit, hcursor, hpasses⟩ := passVariable_passes [] past rest
  exact ⟨passed, rest', hsplit, hcursor, .definition hpasses⟩

/-- The scan of an attribute passes what an attribute takes. -/
theorem skipAttribute_takes {rest : List Token} (past : List Token)
    (hname : rest.head?.any Token.isWord = true) :
    ∃ passed rest', rest = passed ++ rest' ∧
      skipAttribute past rest = ⟨passed.reverse ++ past, rest'⟩ ∧
      Takes past .decoration passed rest' := by
  cases rest with
  | nil => simp at hname
  | cons name ts =>
      have hword : name.isWord = true := by simpa using hname
      obtain ⟨passed, rest', rfl, hcursor, harguments⟩ := skipArguments_isArguments (name :: past) ts
      refine ⟨name :: passed, rest', rfl, ?_, .decoration hword harguments⟩
      rw [skipAttribute, if_pos hword, hcursor]
      simp

end Scans

end Outline

end DeclLint
