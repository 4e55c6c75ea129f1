import DeclLint.Proofs.Checked.Round

/-!
# Declaration trees, read byte by byte

The scanner reads a body by a loop, and calls itself for the bodies inside; the reader with a
list of open braces goes through the same tokens in one run.  A loop that ends behind a closing
brace has come as far as the run has when it leaves the frame (`Ends`), and this is shown for
all loops at once, the inner ones first, by the number of tokens that are left.  So the scanner
finds the declaration tree, and since the tree has no faults, no check of the scanner fails.

* `Scanner.parseItems_of_lt` — a body is read round after round;
* `Scanner.exists_more` — a step goes on behind its token;
* `Scanner.parseItems_ends` — bodies, by the run of the reader;
* `Scanner.parse_of_cut`, `Scanner.parse_safe` — declaration trees.
-/

namespace DeclLint

namespace Scanner

open Checked
open Outline (State)

/-- The call for what is inside of a brace, as a round at `pos` makes it. -/
def callFrom (source : String) (tokens : List RawToken) (pos : Nat) : Nested :=
  fun inside brace start =>
    if pos < start then parseItems source tokens inside (some brace) {} [] start else stuck pos

/-- What comes after a round at `pos`. -/
def goOn (source : String) (tokens : List RawToken) (scope : Outline.Scope)
    (opened? : Option RawToken) (items : List Declaration) (pos : Nat) :
    Round → Checked ParseError (List Declaration × Nat)
  | .closed after => pure (items, after)
  | .more modifiers items after =>
      if pos < after then parseItems source tokens scope opened? modifiers items after
      else stuck pos

/-- A body is read round after round. -/
theorem parseItems_of_lt (source : String) {tokens : List RawToken} (scope : Outline.Scope)
    (opened? : Option RawToken) (modifiers : Outline.Modifiers) (items : List Declaration)
    {pos : Nat} (h : pos < tokens.length) :
    parseItems source tokens scope opened? modifiers items pos =
      parseItem source tokens (callFrom source tokens pos) scope opened? modifiers items pos >>=
        goOn source tokens scope opened? items pos := by
  rw [parseItems.eq_def, dif_pos h]
  rfl

variable {source : String} {all : List Token} {s next : State} {t : Token} {ts : List Token}

/-- What reading a body comes to, by the run of the reader with a list of open braces: both
refuse, all tokens are read and no brace is open, or the body is closed and the run goes on
behind the closing brace. -/
inductive Ends (all : List Token) (s : State) :
    Checked ParseError (List Declaration × Nat) → Prop
  | refused {e : ParseError} (hrun : Outline.run s = .error e) : Ends all s (refuse e)
  | finished {ds : List Declaration} (hframes : s.frames = []) (hrun : Outline.run s = .ok ds) :
      Ends all s (.ok (ds, all.length))
  | closed {frame : Outline.Frame} {frames : List Outline.Frame} {more later : List Token}
      {closing : Token} {found : List Declaration} (hframes : s.frames = frame :: frames)
      (hclosing : all = (more ++ s.past).reverse ++ closing :: later)
      (hrun : Outline.run s = Outline.run
        { past := closing :: (more ++ s.past), rest := later, scope := frame.scope
          frames := frames, found := frame.close closing found }) :
      Ends all s (.ok (found.reverse, (more ++ s.past).length + 1))

/-- A run that goes on in the same body ends as it does from there on. -/
theorem Ends.of_run {x : Checked ParseError (List Declaration × Nat)} {more : List Token}
    (h : Ends all next x) (hrun : Outline.run s = Outline.run next)
    (hframes : next.frames = s.frames) (hpast : next.past = more ++ s.past) : Ends all s x := by
  cases h with
  | refused hnext => exact .refused (hrun.trans hnext)
  | finished hnone hnext => exact .finished (hframes ▸ hnone) (hrun.trans hnext)
  | @closed _ _ later _ _ _ hsome hclosing hnext =>
      rw [hpast, ← List.append_assoc] at hclosing hnext ⊢
      exact .closed (hframes ▸ hsome) hclosing (hrun.trans hnext)

/-- Where no brace is open, only the end of the tokens is reached. -/
theorem Ends.eq_of_frames {x : Checked ParseError (List Declaration × Nat)} (h : Ends all s x)
    (hframes : s.frames = []) :
    x = ofExcept ((Outline.run s).map fun ds => (ds, all.length)) := by
  cases h with
  | refused hrun => rw [hrun]; rfl
  | finished _ hrun => rw [hrun]; rfl
  | closed hsome => exact absurd (hframes.symm.trans hsome) (List.cons_ne_nil _ _).symm

/-- The end of the tokens. -/
theorem Ends.of_nil (h : all = s.past.reverse ++ s.rest) (hrest : s.rest = []) :
    Ends all s (parseItems source (all.map Token.raw) s.scope (opened? s) s.modifiers
      s.found.reverse s.past.length) := by
  have hlength : s.past.length = all.length := by simp [h, hrest]
  have hrun := Outline.run_of_nil hrest
  rw [parseItems.eq_def, dif_neg (by simp [hlength])]
  cases hframes : s.frames with
  | nil =>
      have hopened : opened? s = none := by rw [opened?, hframes, List.head?_nil, Option.map_none]
      rw [hframes] at hrun
      rw [hopened, hlength]
      exact .finished hframes hrun
  | cons frame frames =>
      have hopened : opened? s = some frame.brace.raw := by
        rw [opened?, hframes, List.head?_cons, Option.map_some]
      rw [hframes] at hrun
      rw [hopened]
      exact .refused hrun

/-- A step goes on behind its token. -/
theorem exists_more (h : all = s.past.reverse ++ t :: ts) (hstep : Outline.step s t ts = .ok next) :
    ∃ more, next.past = more ++ s.past ∧ s.past.length < next.past.length ∧
      all = next.past.reverse ++ next.rest := by
  obtain ⟨passed, htokens, hpast⟩ := (Outline.step_move hstep).advances
  dsimp only at htokens hpast
  have hle := Outline.step_rest_le hstep
  have hlength := congrArg List.length htokens
  rw [List.length_cons, List.length_append] at hlength
  refine ⟨passed.reverse, hpast, ?_, ?_⟩
  · rw [hpast, List.length_append, List.length_reverse]
    omega
  · rw [h, htokens, hpast]
    simp

/-- Where a body is closed, the run goes on behind it as in the body around. -/
theorem Ends.of_enter {owner : Outline.Owner} {inside : Outline.Scope} {past rest : List Token}
    {brace : Token} {round : Checked ParseError Round}
    (hlt : s.past.length < past.length + 1)
    (hpast : ∃ more, brace :: past = more ++ s.past)
    (hrun : Outline.run s = Outline.run (s.enter owner inside past brace rest))
    (hcalls : Calls all (callFrom source (all.map Token.raw) s.past.length) inside past brace
      (fun members closing pos =>
        Round.more {} (s.found.reverse ++ owner.declare brace closing members) pos) round)
    (hinside : Ends all (s.enter owner inside past brace rest)
      (parseItems source (all.map Token.raw) inside (some brace.raw) {} [] (past.length + 1)))
    (hbehind : ∀ next : State, s.past.length < next.past.length →
      all = next.past.reverse ++ next.rest →
        Ends all next (parseItems source (all.map Token.raw) next.scope (opened? next)
          next.modifiers next.found.reverse next.past.length)) :
    Ends all s (round >>=
      goOn source (all.map Token.raw) s.scope (opened? s) s.found.reverse s.past.length) := by
  have hcall : callFrom source (all.map Token.raw) s.past.length inside brace.raw
      (past.length + 1) =
        parseItems source (all.map Token.raw) inside (some brace.raw) {} [] (past.length + 1) :=
    if_pos hlt
  generalize parseItems source (all.map Token.raw) inside (some brace.raw) {} []
    (past.length + 1) = x at hinside hcall
  cases hinside with
  | refused hinner =>
      rw [hcalls.error _ hcall]
      exact .refused (hrun.trans hinner)
  | finished hframes => simp [State.enter] at hframes
  | @closed frame frames more later closing found hframes hclosing hinner =>
      obtain ⟨rfl, rfl⟩ := List.cons.inj hframes
      obtain ⟨before, hbefore⟩ := hpast
      have hmore : s.past.length < (more ++ brace :: past).length + 1 := by
        rw [hbefore, List.length_append, List.length_append]
        omega
      -- the state in which the run leaves the frame, which is where the rounds go on
      have hends := hbehind
        { past := closing :: (more ++ brace :: past), rest := later, scope := s.scope
          frames := s.frames
          found := Outline.Frame.close ⟨owner, brace, s.scope, s.found⟩ closing found }
        hmore (pass hclosing)
      have hpassed : closing :: (more ++ brace :: past) =
          closing :: (more ++ before) ++ s.past := by
        rw [hbefore, List.cons_append, List.append_assoc]
      have hfound : (Outline.Frame.close ⟨owner, brace, s.scope, s.found⟩ closing found).reverse =
          s.found.reverse ++ owner.declare brace closing found.reverse := by
        rw [Outline.Frame.close_eq, List.reverse_append, List.reverse_reverse]
      rw [hcalls.closed _ more closing later hclosing hcall, ok_bind, goOn, if_pos hmore, ← hfound]
      exact hends.of_run (hrun.trans hinner) rfl hpassed

/-- **Bodies.** -/
theorem parseItems_ends (hall : Layout source all) (h : all = s.past.reverse ++ s.rest) :
    Ends all s (parseItems source (all.map Token.raw) s.scope (opened? s) s.modifiers
      s.found.reverse s.past.length) := by
  -- on the tokens left: the loop inside a brace and the rounds behind it both begin further on
  induction hn : all.length - s.past.length using Nat.strongRecOn generalizing s with
  | ind n ih =>
    subst hn
    cases hrest : s.rest with
    | nil => exact .of_nil h hrest
    | cons t ts =>
      have hhere : all = s.past.reverse ++ t :: ts := hrest ▸ h
      have hplace := lt_length (here hhere)
      have hbehind : ∀ next : State, s.past.length < next.past.length →
          all = next.past.reverse ++ next.rest →
            Ends all next (parseItems source (all.map Token.raw) next.scope (opened? next)
              next.modifiers next.found.reverse next.past.length) :=
        fun next hlt hnext => ih _ (by rw [List.length_map] at hplace; omega) hnext rfl
      have hrun := Outline.run_of_cons hrest
      have hround := parseItem_agrees hall (callFrom source (all.map Token.raw) s.past.length) hhere
      rw [parseItems_of_lt _ _ _ _ _ hplace]
      -- from here on the step and the round only count by how they agree
      generalize hstep : Outline.step s t ts = stepped at hround
      rw [hstep] at hrun
      generalize parseItem source (all.map Token.raw) _ s.scope (opened? s) s.modifiers
        s.found.reverse s.past.length = round at hround ⊢
      cases hround with
      | refused e => exact .refused hrun
      | @passed next hscope hframes =>
          obtain ⟨more, hpast, hlt, htokens⟩ := exists_more hhere hstep
          have hends := hbehind next hlt htokens
          have hopened : opened? next = opened? s := by rw [opened?, hframes]
          rw [ok_bind, goOn, if_pos hlt, ← hscope, ← hopened]
          exact hends.of_run hrun hframes hpast
      | @entered owner inside past rest brace _ hcalls =>
          obtain ⟨more, hpast, hlt, htokens⟩ := exists_more hhere hstep
          exact .of_enter hlt ⟨more, hpast⟩ hrun hcalls (hbehind _ hlt htokens) hbehind
      | @left frame frames closing rest hframes =>
          obtain ⟨_, _, _, htokens⟩ := exists_more hhere hstep
          exact @Ends.closed _ _ _ _ [] _ _ _ hframes (by simpa using htokens) hrun

/-- **Files.**  All tokens of a text are read, unless it is refused. -/
theorem parseItems_eq (hall : Layout source all) :
    parseItems source (all.map Token.raw) .file none {} [] 0 =
      ofExcept ((Outline.ofTokens all).map fun ds => (ds, all.length)) := by
  have hends := parseItems_ends (s := { rest := all }) hall rfl
  exact hends.eq_of_frames rfl

/-- A text that is cut into pieces is read to the end of their tokens. -/
theorem parse_of_cut {pieces : List Piece} (hcut : cut source.toList = .ok pieces) :
    parse source =
      ofExcept ((declarationTree source).map fun root =>
        Parse.mk ((Token.ofPieces pieces).map Token.raw) (Token.ofPieces pieces).length root) := by
  have hitems := parseItems_eq (.of_cut hcut)
  rw [parse, tokenize_eq, hcut, Except.map, ofExcept_ok, ok_bind, declarationTree_of_cut hcut]
  dsimp only
  rw [hitems]
  cases Outline.ofTokens (Token.ofPieces pieces) <;> rfl

/-- **Safety of the scanner.**  For every text, each access and each cut of the scanner is in
range, each difference is one of a number not larger, and each round and each call gets on: the
scanner ends behind the last token with the declaration tree, or refuses the text with the
error that it should.  The same holds of the line comments. -/
theorem parse_safe (source : String) :
    ((∃ p, parse source = .ok p ∧ p.pos = p.tokens.length ∧
        declarationTree source = .ok p.root) ∨
      (∃ e, parse source = .error (.refused e) ∧ declarationTree source = .error e)) ∧
    lineComments source =
      ofExcept ((DeclLint.lineComments source).map fun comments =>
        comments.map LineComment.range) := by
  refine ⟨?_, lineComments_eq source⟩
  cases hcut : cut source.toList with
  | error e =>
      rw [parse, tokenize_eq, declarationTree, hcut]
      exact .inr ⟨e, rfl, rfl⟩
  | ok pieces =>
      rw [parse_of_cut hcut]
      cases declarationTree source with
      | error e => exact .inr ⟨e, rfl, rfl⟩
      | ok root => exact .inl ⟨.mk _ _ root, rfl, (List.length_map _).symm, rfl⟩

end Scanner

end DeclLint
