import DeclLint.Proofs.Declaration.Walk
import DeclLint.Proofs.Outline.Move
import DeclLint.Proofs.Outline.Respelling
import DeclLint.Proofs.Source.Cutting
import Mathlib.Data.List.Forall2

/-!
# Moved tokens hold moved declarations

The reader does not count: every offset in a tree is one at which a token starts or stops.
So if tokens are put down elsewhere, up to `let` and `var` (`Token.Moves`), it passes
through the same states with all offsets moved, and comes to the same end: it finds the
same declarations elsewhere (`Declaration.Relocated`), or stops at the same token.  Where
the line breaks are does not matter.

* `Outline.step_relocated` — one step;
* `Outline.run_relocated` — a whole run;
* `Declaration.Relocated.walk` — moved declarations are walked in the same order.
-/

namespace DeclLint

/-- Two outcomes agree: related values, or one error at two offsets. -/
def Agree {α β : Type} (move : Nat → Nat) (related : α → β → Prop) :
    Except ParseError α → Except ParseError β → Prop
  | .ok a, .ok b => related a b
  | .error e, .error e' => e' = e.relocate move
  | _, _ => False

/-- A way to put down tokens elsewhere that keeps what they are, up to `let` and `var`. -/
structure Token.Moves (f : Token → Token) (move : Nat → Nat) : Prop where
  respells : Token.Respells f
  start_eq : ∀ t : Token, t.lexeme ≠ .lineBreak → (f t).start = move t.start
  stop_eq : ∀ t : Token, t.lexeme ≠ .lineBreak → (f t).stop = move t.stop
  zero_eq : move 0 = 0

namespace Declaration

/-- A declaration elsewhere, with all that is inside it. -/
inductive Relocated (move : Nat → Nat) : Declaration → Declaration → Prop
  | intro {kind : Option DeclarationKind} {start stop : Nat} {body : Option (Nat × Nat)}
      {setter : Option String} {children children' : List Declaration}
      (inside : List.Forall₂ (Relocated move) children children') :
      Relocated move
        { kind := kind
          range := some (ByteRange.between start stop)
          bodyLength := body.map fun braces => braces.2 - braces.1
          setterAccessibility := setter
          children := children }
        { kind := kind
          range := some (ByteRange.between (move start) (move stop))
          bodyLength := body.map fun braces => move braces.2 - move braces.1
          setterAccessibility := setter
          children := children' }

variable {move : Nat → Nat}

/-- Induction on declarations that are elsewhere, with the claim for all that is inside. -/
theorem Relocated.induct {motive : ∀ d d', Relocated move d d' → Prop}
    (step : ∀ {kind : Option DeclarationKind} {start stop : Nat} {body : Option (Nat × Nat)}
      {setter : Option String} {children children' : List Declaration}
      (inside : List.Forall₂ (Relocated move) children children'),
      List.Forall₂ (fun d d' => ∃ h : Relocated move d d', motive d d' h) children children' →
        motive _ _ (@Relocated.intro move kind start stop body setter children children' inside))
    {d d' : Declaration} (h : Relocated move d d') : motive d d' h :=
  @Relocated.rec move motive
    (fun ds ds' _ => List.Forall₂ (fun d d' => ∃ h : Relocated move d d', motive d d' h) ds ds')
    (fun inside => step inside) .nil (fun hd _ hmotive hrest => .cons ⟨hd, hmotive⟩ hrest)
    d d' h

/-- The span of a declaration, and where it is moved. -/
theorem Relocated.exists_range {d d' : Declaration} (h : Relocated move d d') :
    ∃ start stop, d.range = some (ByteRange.between start stop) ∧
      d'.range = some (ByteRange.between (move start) (move stop)) := by
  cases h
  exact ⟨_, _, rfl, rfl⟩

theorem Relocated.kind_eq {d d' : Declaration} (h : Relocated move d d') : d'.kind = d.kind := by
  cases h
  rfl

/-- Declarations at the same offsets are the same. -/
theorem Relocated.eq_of_id {d d' : Declaration} (h : Relocated id d d') : d = d' := by
  induction h using Relocated.induct with
  | step inside ih =>
      have hsame := ih.imp fun d d' (hboth : ∃ _ : Relocated id d d', d = d') => hboth.2
      rw [List.forall₂_eq_eq_eq] at hsame
      rw [hsame]
      rfl

/-- What a walk comes to: a declaration elsewhere, in one elsewhere. -/
def Pending.Relocated (move : Nat → Nat) (p p' : Pending) : Prop :=
  Option.Rel (Declaration.Relocated move) p.1 p'.1 ∧ p.2.Relocated move p'.2

/-- **Walks.**  Moved declarations are walked in the same order. -/
theorem Relocated.walk {d d' : Declaration} (h : Relocated move d d') :
    ∀ {container container' : Option Declaration},
      Option.Rel (Relocated move) container container' →
        List.Forall₂ (Pending.Relocated move) (d.walk container) (d'.walk container') := by
  induction h using Relocated.induct with
  | step inside ih =>
      intro container container' hcontainer
      rw [walk_eq, walk_eq, walkAll_eq_flatMap, walkAll_eq_flatMap, List.flatMap_map,
        List.flatMap_map]
      refine .cons ⟨hcontainer, .intro inside⟩ (List.rel_flatMap ih ?_)
      rintro d d' ⟨-, hwalk⟩
      exact hwalk (.some (.intro inside))

end Declaration

namespace Outline

/-- What a brace belongs to, elsewhere. -/
def Owner.relocate (move : Nat → Nat) : Owner → Owner
  | block => block
  | body kind start => body kind (move start)
  | accessors kind start setter => accessors kind (move start) setter

/-- An open brace elsewhere, with the declarations around it. -/
structure Frame.Relocated (move : Nat → Nat) (frame frame' : Frame) : Prop where
  owner_eq : frame'.owner = frame.owner.relocate move
  start_eq : frame'.brace.start = move frame.brace.start
  stop_eq : frame'.brace.stop = move frame.brace.stop
  scope_eq : frame'.scope = frame.scope
  siblings : List.Forall₂ (Declaration.Relocated move) frame.siblings frame'.siblings

/-- The reader at the same place among tokens that are put down elsewhere. -/
structure State.Relocated (f : Token → Token) (move : Nat → Nat) (s s' : State) : Prop where
  past_eq : s'.past = s.past.map f
  rest_eq : s'.rest = s.rest.map f
  scope_eq : s'.scope = s.scope
  modifiers_eq : s'.modifiers = s.modifiers
  frames : List.Forall₂ (Frame.Relocated move) s.frames s'.frames
  found : List.Forall₂ (Declaration.Relocated move) s.found s'.found

variable {f : Token → Token} {move : Nat → Nat}

/-- The last token that separates no lines stops elsewhere. -/
theorem lastStop_map (h : Token.Moves f move) (past : List Token) :
    lastStop (past.map f) = move (lastStop past) := by
  unfold lastStop
  rw [significant?_map h.respells]
  cases hlast : significant? past with
  | none => exact h.zero_eq.symm
  | some t =>
      have hseparates : t.lexeme ≠ .lineBreak := by
        intro hbreak
        have hfirst := List.head?_dropWhile_not Token.isLineBreak past
        unfold significant? significant at hlast
        simp [hlast, Token.isLineBreak, hbreak] at hfirst
      exact h.stop_eq t hseparates

section Parts

variable {s s' : State} (hs : State.Relocated f move s s')
include hs

theorem State.Relocated.moveTo (c : Cursor) :
    State.Relocated f move (s.moveTo c) (s'.moveTo (c.map f)) :=
  ⟨rfl, rfl, hs.scope_eq, hs.modifiers_eq, hs.frames, hs.found⟩

theorem State.Relocated.settle (past rest : List Token) :
    State.Relocated f move (s.settle past rest) (s'.settle (past.map f) (rest.map f)) :=
  ⟨rfl, rfl, hs.scope_eq, rfl, hs.frames, hs.found⟩

theorem State.Relocated.declare {d d' : Declaration} (hd : d.Relocated move d')
    (past rest : List Token) :
    State.Relocated f move { s.settle past rest with found := d :: s.found }
      { s'.settle (past.map f) (rest.map f) with found := d' :: s'.found } :=
  ⟨rfl, rfl, hs.scope_eq, rfl, hs.frames, .cons hd hs.found⟩

theorem State.Relocated.modify {m m' : Modifiers} (hm : m' = m) :
    State.Relocated f move { s with modifiers := m } { s' with modifiers := m' } :=
  ⟨hs.past_eq, hs.rest_eq, hs.scope_eq, hm, hs.frames, hs.found⟩

theorem State.Relocated.enter (h : Token.Moves f move) {brace : Token}
    (hbrace : brace.lexeme = .mark '{') (owner : Owner) (scope : Scope) (past rest : List Token) :
    State.Relocated f move (s.enter owner scope past brace rest)
      (s'.enter (owner.relocate move) scope (past.map f) (f brace) (rest.map f)) := by
  have hmark : brace.lexeme ≠ .lineBreak := by simp [hbrace]
  exact ⟨rfl, rfl, rfl, rfl, .cons ⟨rfl, h.start_eq brace hmark, h.stop_eq brace hmark,
    hs.scope_eq, hs.found⟩ hs.frames, .nil⟩

end Parts

/-- The declarations around a body, once it is closed. -/
theorem Frame.Relocated.close (h : Token.Moves f move) {frame frame' : Frame}
    (hframe : Frame.Relocated move frame frame') {closing : Token}
    (hclosing : closing.lexeme = .mark '}') {found found' : List Declaration}
    (hfound : List.Forall₂ (Declaration.Relocated move) found found') :
    List.Forall₂ (Declaration.Relocated move) (frame.close closing found)
      (frame'.close (f closing) found') := by
  have hmark : closing.lexeme ≠ .lineBreak := by simp [hclosing]
  have hstart := h.start_eq closing hmark
  have hstop := h.stop_eq closing hmark
  unfold Frame.close
  rw [hframe.owner_eq, hframe.stop_eq, hstart, hstop]
  cases frame.owner with
  | block => exact List.rel_append hfound hframe.siblings
  | body kind start =>
      exact .cons (@Declaration.Relocated.intro move (some kind) start closing.stop
        (some (frame.brace.stop, closing.start)) none _ _ (List.rel_reverse hfound)) hframe.siblings
  | accessors kind start setter =>
      exact .cons (@Declaration.Relocated.intro move (some kind) start closing.stop
        (some (frame.brace.stop, closing.start)) setter [] [] .nil) hframe.siblings

section Words

variable {s s' : State} (hs : State.Relocated f move s s') (h : Token.Moves f move)
include hs h

/-- Reading a type keeps two states alike. -/
theorem State.Relocated.readType (word : String) {t : Token} (ht : t.lexeme ≠ .lineBreak)
    (rest : List Token) :
    State.Relocated f move (s.readType word t rest) (s'.readType word (f t) (rest.map f)) := by
  have hend := passHeader_map h.respells 0 (t :: s.past) rest
  unfold State.readType
  rw [hs.past_eq, ← List.map_cons, hend, h.start_eq t ht]
  cases hpass : passHeader 0 (t :: s.past) rest with
  | body past brace rest =>
      exact hs.enter h (passHeader_brace hpass) (.body (typeKind word) t.start) .type past rest
  | bare past rest => exact hs.settle past rest

/-- Moved tokens make a function at its moved place. -/
theorem State.Relocated.readFunction (word : String) {t : Token} (ht : t.lexeme ≠ .lineBreak)
    (rest : List Token) :
    State.Relocated f move (s.readFunction word t rest)
      (s'.readFunction word (f t) (rest.map f)) := by
  have hend := passHeader_map h.respells 0 (t :: s.past) rest
  unfold State.readFunction
  rw [hs.past_eq, ← List.map_cons, hend, h.start_eq t ht, hs.scope_eq, hs.modifiers_eq]
  cases hpass : passHeader 0 (t :: s.past) rest with
  | body past brace rest =>
      exact hs.enter h (passHeader_brace hpass)
        (.body (functionKind word s.scope s.modifiers) t.start) .code past rest
  | bare past rest =>
      simp only [HeaderEnd.map, lastStop_map h]
      exact hs.declare (@Declaration.Relocated.intro move
        (some (functionKind word s.scope s.modifiers)) t.start (lastStop past) none none [] []
        .nil) past rest

/-- Moved tokens make a variable at its moved place. -/
theorem State.Relocated.readVariable {t : Token} (ht : t.lexeme ≠ .lineBreak)
    (rest : List Token) :
    State.Relocated f move (s.readVariable t rest) (s'.readVariable (f t) (rest.map f)) := by
  have hend := passVariable_map h.respells 0 false (t :: s.past) rest
  unfold State.readVariable
  rw [hs.past_eq, ← List.map_cons, hend, h.start_eq t ht, hs.scope_eq, hs.modifiers_eq]
  cases hpass : passVariable 0 false (t :: s.past) rest with
  | accessors past brace rest =>
      exact hs.enter h (passVariable_brace hpass)
        (.accessors (variableKind s.scope s.modifiers) t.start s.modifiers.setterAccessibility)
        .code past rest
  | bare past rest =>
      simp only [VariableEnd.map, lastStop_map h]
      exact hs.declare (@Declaration.Relocated.intro move
        (some (variableKind s.scope s.modifiers)) t.start (lastStop past) none
        s.modifiers.setterAccessibility [] [] .nil) past rest

/-- **Words.**  A word is read to the same effect, whichever way it leads. -/
theorem State.Relocated.readWord (word : String) {t : Token} (ht : t.lexeme ≠ .lineBreak)
    (rest : List Token) :
    State.Relocated f move (s.readWord word t rest) (s'.readWord word (f t) (rest.map f)) := by
  have hclass : nextWordIsOf classModifierFollowers (rest.map f) =
      nextWordIsOf classModifierFollowers rest := nextWordIsOf_map h.respells (by decide) rest
  have hsetter := setterSuffix?_map h.respells (t :: s.past) rest
  have htype := startsType_map h.respells s.past rest
  have hfunction := startsFunction_map h.respells s.past
  have hpattern := isBindingPattern_map h.respells s.past
  have harguments := skipArguments_map h.respells (t :: s.past) rest
  have hmoved := hs.moveTo ⟨t :: s.past, rest⟩
  unfold State.readWord
  simp only [hclass, hs.past_eq, ← List.map_cons, hsetter, htype, hfunction, hpattern, harguments]
  split
  · exact hmoved.modify (by rw [hs.modifiers_eq])
  split
  · exact hmoved.modify (by rw [hs.modifiers_eq])
  split
  · cases setterSuffix? (t :: s.past) rest with
    | none => exact hmoved
    | some after => exact (hs.moveTo after).modify (by rw [hs.modifiers_eq])
  split
  · exact hs.readType h word ht rest
  split
  · exact hs.readFunction h word ht rest
  split
  · split
    · exact hmoved
    · exact hs.readVariable h ht rest
  split
  · exact hs.moveTo (skipArguments (t :: s.past) rest)
  · exact hs.settle (t :: s.past) rest

end Words

/-- **The word itself.**  `let` and `var` are read alike. -/
theorem State.readWord_let (s : State) (t : Token) (rest : List Token) :
    s.readWord "let" t rest = s.readWord "var" t rest := by
  simp [State.readWord, accessLevels, typeIntroducers, functionIntroducers]

/-- **A step of the reader.** -/
theorem step_relocated (h : Token.Moves f move) {s s' : State}
    (hs : State.Relocated f move s s') (t : Token) (rest : List Token) :
    Agree move (State.Relocated f move) (step s t rest) (step s' (f t) (rest.map f)) := by
  have hmoved := hs.moveTo ⟨t :: s.past, rest⟩
  have hsettled := hs.settle (t :: s.past) rest
  cases hlexeme : t.lexeme with
  | word text =>
      have hword : t.lexeme ≠ .lineBreak := by simp [hlexeme]
      rcases h.respells t with hsame | ⟨hlet, hvar⟩
      · simp only [step, hsame, hlexeme]
        exact hs.readWord h text hword rest
      · obtain rfl : text = "let" := by simpa [hlexeme] using hlet
        simp only [step, hvar, hlexeme, State.readWord_let]
        exact hs.readWord h "var" hword rest
  | mark c =>
      have hmark : t.lexeme ≠ .lineBreak := by simp [hlexeme]
      have hsame : (f t).lexeme = .mark c :=
        (h.respells.lexeme_eq_iff (by simp) t).mpr hlexeme
      simp only [step, hsame, hlexeme, hs.past_eq, ← List.map_cons]
      split
      next hc =>
        subst hc
        have hframes := hs.frames
        cases hopen : s.frames with
        | nil =>
            rw [hopen] at hframes
            rw [List.forall₂_nil_left_iff.mp hframes]
            exact congrArg (ParseError.unbalanced '}') (h.start_eq t hmark)
        | cons frame frames =>
            rw [hopen] at hframes
            obtain ⟨frame', frames', hframe, hothers, hopen'⟩ :=
              List.forall₂_cons_left_iff.mp hframes
            rw [hopen']
            exact ⟨rfl, rfl, hframe.scope_eq, rfl, hothers, hframe.close h hlexeme hs.found⟩
      split
      next hc =>
        rw [hs.scope_eq]
        exact hs.enter h (by rw [hlexeme, hc]) .block (blockScope s.scope) s.past rest
      split
      · exact hsettled
      split
      · rw [skipAttribute_map h.respells]
        exact hs.moveTo (skipAttribute (t :: s.past) rest)
      · exact hmoved
  | literal =>
      have hsame : (f t).lexeme = .literal := (h.respells.lexeme_eq_iff (by simp) t).mpr hlexeme
      simp only [step, hsame, hlexeme, hs.past_eq, ← List.map_cons]
      exact hsettled
  | lineBreak | assign | query =>
      have hsame : (f t).lexeme = t.lexeme :=
        (h.respells.lexeme_eq_iff (by simp [hlexeme]) t).mpr rfl
      rw [hlexeme] at hsame
      simp only [step, hsame, hlexeme, hs.past_eq, ← List.map_cons]
      exact hmoved

/-- **A run of the reader.**  It comes to the same end. -/
theorem run_relocated (h : Token.Moves f move) {s s' : State} (hs : State.Relocated f move s s') :
    Agree move (List.Forall₂ (Declaration.Relocated move)) (run s) (run s') := by
  fun_induction run s generalizing s' with
  | case1 s hrest hframes =>
      have hrest' : s'.rest = [] := by simp [hs.rest_eq, hrest]
      have hframes' : s'.frames = [] := by
        have hboth := hs.frames
        rw [hframes] at hboth
        exact List.forall₂_nil_left_iff.mp hboth
      rw [run_of_nil hrest', hframes']
      exact List.rel_reverse hs.found
  | case2 s hrest frame frames hframes =>
      have hrest' : s'.rest = [] := by simp [hs.rest_eq, hrest]
      have hboth := hs.frames
      rw [hframes] at hboth
      obtain ⟨frame', frames', hframe, -, hframes'⟩ := List.forall₂_cons_left_iff.mp hboth
      rw [run_of_nil hrest', hframes']
      exact congrArg (ParseError.unbalanced '{') hframe.start_eq
  | case3 s t rest hrest e hstep =>
      have hrest' : s'.rest = f t :: rest.map f := by simp [hs.rest_eq, hrest]
      have hboth := step_relocated h hs t rest
      rw [hstep] at hboth
      rw [run_of_cons hrest']
      cases hstep' : step s' (f t) (rest.map f) with
      | ok next' => simp [hstep', Agree] at hboth
      | error e' =>
          rw [hstep'] at hboth
          exact hboth
  | case4 s t rest hrest next hstep ih =>
      have hrest' : s'.rest = f t :: rest.map f := by simp [hs.rest_eq, hrest]
      have hboth := step_relocated h hs t rest
      rw [hstep] at hboth
      rw [run_of_cons hrest']
      cases hstep' : step s' (f t) (rest.map f) with
      | error e' => simp [hstep', Agree] at hboth
      | ok next' =>
          rw [hstep'] at hboth
          exact ih hboth

/-- **Declarations of moved tokens.**  They are the declarations of the tokens, moved; or
both lists of tokens are refused for the same token. -/
theorem ofTokens_relocated (h : Token.Moves f move) (tokens : List Token) :
    Agree move (List.Forall₂ (Declaration.Relocated move)) (ofTokens tokens)
      (ofTokens (tokens.map f)) :=
  run_relocated h ⟨rfl, rfl, rfl, rfl, .nil, .nil⟩

/-- Tokens that stay where they are hold the same declarations, and are refused for the
same reason. -/
theorem ofTokens_of_stay (h : Token.Moves f id) (tokens : List Token) :
    ofTokens (tokens.map f) = ofTokens tokens := by
  have hboth := ofTokens_relocated h tokens
  cases htokens : ofTokens tokens with
  | ok ds =>
      cases htokens' : ofTokens (tokens.map f) with
      | ok ds' =>
          rw [htokens, htokens'] at hboth
          have hsame : List.Forall₂ Eq ds ds' := List.Forall₂.imp
            (fun d d' hd => Declaration.Relocated.eq_of_id hd) hboth
          rw [List.forall₂_eq_eq_eq] at hsame
          rw [hsame]
      | error e' => simp [htokens, htokens', Agree] at hboth
  | error e =>
      cases htokens' : ofTokens (tokens.map f) with
      | ok ds' => simp [htokens, htokens', Agree] at hboth
      | error e' =>
          rw [htokens, htokens'] at hboth
          obtain rfl : e' = e.relocate id := hboth
          cases e <;> rfl

end Outline

end DeclLint
