import DeclLint.Proofs.Source.Bracket

/-!
# The brackets that a pass of the outline reader takes

A header, a variable and a group are each passed with one counter for every kind of
bracket.  What a pass does to the brackets that are pending is told here, for tokens
whose only brackets astray are curly ones.  Those that the pass itself opened are
`inner`, those pending before it are `outer`, and `base` stands for curly brackets
that only the end of the tokens would miss.  The counter holds `inner.length`, or
for a group `groups inner`, which leaves the curly ones out.

A header takes closing marks of brackets further out once it is past an opening mark
of its own, so the round and square brackets of `outer` may be gone behind it.  The
number of curly ones never changes; that is what the bodies are matched by.

* `Outline.passHeader_turns` — a header hands over at the same number of curly
  brackets;
* `Outline.skipGroup_turns` — a group hands over where it began;
* `Outline.passVariable_turns` — a variable does as a header does, or it ends with
  the tokens.
-/

namespace DeclLint

namespace Outline

open DeclLint.Bracket

/-- The tokens up to a place further on lead from some pending brackets to others. -/
def Cursor.Turns (c : Cursor) (rest : List Token) (pending left : List Bracket) : Prop :=
  ∃ passed, rest = passed ++ c.rest ∧ after pending passed = some left

theorem Cursor.Turns.refl (past rest : List Token) (pending : List Bracket) :
    (Cursor.mk past rest).Turns rest pending pending :=
  ⟨[], rfl, rfl⟩

theorem Cursor.Turns.cons {c : Cursor} {t : Token} {rest : List Token}
    {pending mid left : List Bracket} (h : c.Turns rest mid left)
    (hturn : turn pending t = some mid) : c.Turns (t :: rest) pending left := by
  obtain ⟨passed, rfl, hafter⟩ := h
  exact ⟨t :: passed, rfl, after_cons_eq_some_iff.mpr ⟨mid, hturn, hafter⟩⟩

/-- Only curly brackets are pending. -/
def OnlyBraces (pending : List Bracket) : Prop := ∀ b ∈ pending, b = .brace

/-- The outermost of some pending brackets is no curly one. -/
def Grounded (pending : List Bracket) : Prop := pending.getLast? ≠ some .brace

theorem Grounded.nil : Grounded [] := by
  simp [Grounded]

theorem Grounded.cons {b : Bracket} {inner : List Bracket} (h : Grounded inner)
    (hb : inner = [] → b ≠ .brace) : Grounded (b :: inner) := by
  unfold Grounded at h ⊢
  cases inner with
  | nil => simpa using hb rfl
  | cons c inner => rwa [List.getLast?_cons_cons]

theorem Grounded.tail {b : Bracket} {inner : List Bracket} (h : Grounded (b :: inner)) :
    Grounded inner := by
  cases inner with
  | nil => exact .nil
  | cons c inner =>
      unfold Grounded at h ⊢
      rwa [List.getLast?_cons_cons] at h

/-- Where only curly brackets are pending, nothing is grounded. -/
theorem Grounded.eq_nil {inner outer : List Bracket} (h : Grounded inner)
    (hbraces : OnlyBraces (inner ++ outer)) : inner = [] := by
  cases hlast : inner.getLast? with
  | none => exact List.getLast?_eq_none_iff.mp hlast
  | some b =>
      have hmem : b ∈ inner ++ outer := List.mem_append_left _ (List.mem_of_getLast? hlast)
      obtain rfl := hbraces b hmem
      exact absurd hlast h

/-- How many round and square brackets are pending. -/
def groups (pending : List Bracket) : Nat := pending.countP (· != .brace)

theorem groups_cons (b : Bracket) (pending : List Bracket) :
    groups (b :: pending) = if b = .brace then groups pending else groups pending + 1 := by
  cases b <;> simp [groups]

theorem Grounded.eq_nil_of_groups {inner : List Bracket} (h : Grounded inner)
    (hgroups : groups inner = 0) : inner = [] := by
  have hbraces : OnlyBraces (inner ++ []) := by
    simpa [groups, OnlyBraces] using hgroups
  exact h.eq_nil hbraces

section Scans

variable {t : Token} {b : Bracket} (depth : Nat) (assigned : Bool) (past ts : List Token)

/-! What the scans of the reader do at a token, said of the bracket that it opens or
closes. -/

theorem skipGroup_of_opens (h : t.opens? = some b) :
    skipGroup depth past (t :: ts) =
      skipGroup (if b = .brace then depth else depth + 1) (t :: past) ts := by
  obtain ⟨-, hgroup, -⟩ := Token.isMarkOf_of_opens h
  obtain ⟨-, hcloses, -⟩ := Token.isMarkOf_of_closes_none (Token.closes?_of_opens? h)
  rw [skipGroup, hgroup, hcloses]
  cases b <;> rfl

/-- A closing mark ends a group at the last round or square bracket, whichever kind it is. -/
theorem skipGroup_of_closes (h : t.closes? = some b) :
    skipGroup depth past (t :: ts) =
      if b = .brace then skipGroup depth (t :: past) ts
      else if depth ≤ 1 then ⟨t :: past, ts⟩
      else skipGroup (depth - 1) (t :: past) ts := by
  obtain ⟨-, hopens, -⟩ := Token.isMarkOf_of_opens_none (Token.opens?_of_closes? h)
  obtain ⟨-, hgroup, -⟩ := Token.isMarkOf_of_closes h
  rw [skipGroup, hopens, hgroup]
  cases b <;> rfl

theorem skipGroup_of_plain (hopens : t.opens? = none) (hcloses : t.closes? = none) :
    skipGroup depth past (t :: ts) = skipGroup depth (t :: past) ts := by
  obtain ⟨-, hfirst, -⟩ := Token.isMarkOf_of_opens_none hopens
  obtain ⟨-, hlast, -⟩ := Token.isMarkOf_of_closes_none hcloses
  rw [skipGroup, hfirst, hlast]
  rfl

theorem passHeader_of_opens (h : t.opens? = some b) :
    passHeader depth past (t :: ts) =
      if b = .brace ∧ depth = 0 then .body past t ts
      else passHeader (depth + 1) (t :: past) ts := by
  obtain ⟨hbrace, -, hany⟩ := Token.isMarkOf_of_opens h
  rw [passHeader, hbrace, hany]
  simp

/-- A closing mark goes one level up.  A curly one ends a header that has none open. -/
theorem passHeader_of_closes (h : t.closes? = some b) :
    passHeader depth past (t :: ts) =
      if b = .brace ∧ depth = 0 then .bare past (t :: ts)
      else passHeader (depth - 1) (t :: past) ts := by
  obtain ⟨hopening, -, hopens⟩ := Token.isMarkOf_of_opens_none (Token.opens?_of_closes? h)
  obtain ⟨hbrace, hgroup, -⟩ := Token.isMarkOf_of_closes h
  rw [passHeader, hopening, hopens, hbrace, hgroup]
  cases b <;> simp

/-- At a token that is no bracket a header ends or goes on. -/
theorem passHeader_of_plain (hopens : t.opens? = none) (hcloses : t.closes? = none) :
    passHeader depth past (t :: ts) =
      if depth = 0 ∧ (t.lexeme = .mark ';' ∨
          t.lexeme = .lineBreak ∧ headerContinues past ts = false) then .bare past (t :: ts)
      else passHeader depth (t :: past) ts := by
  obtain ⟨hopening, -, hopens⟩ := Token.isMarkOf_of_opens_none hopens
  obtain ⟨hclosing, hgroup, -⟩ := Token.isMarkOf_of_closes_none hcloses
  have hsemicolon : t.isMark ';' = true ↔ t.lexeme = .mark ';' :=
    Token.isMark_iff (by decide) (by decide)
  rw [passHeader, hopening, hopens, hclosing, hgroup]
  by_cases hdepth : depth = 0 <;> by_cases hmark : t.lexeme = .mark ';' <;>
    simp [hdepth, hsemicolon, hmark, Token.isLineBreak]

/-- An opening mark goes one level down, but for the curly bracket of accessors. -/
theorem passVariable_of_opens (h : t.opens? = some b) :
    passVariable depth assigned past (t :: ts) =
      if b = .brace ∧ depth = 0 ∧ (assigned = false ∨ nextWordIsOf observerWords ts = true) then
        .accessors past t ts
      else passVariable (depth + 1) assigned (t :: past) ts := by
  obtain ⟨hbrace, -, hany⟩ := Token.isMarkOf_of_opens h
  rw [passVariable, hbrace, hany]
  simp [and_assoc]

/-- A closing mark goes one level up, or ends a variable that has none open. -/
theorem passVariable_of_closes (h : t.closes? = some b) :
    passVariable depth assigned past (t :: ts) =
      if depth = 0 then .bare past (t :: ts)
      else passVariable (depth - 1) assigned (t :: past) ts := by
  obtain ⟨hopening, -, hopens⟩ := Token.isMarkOf_of_opens_none (Token.opens?_of_closes? h)
  obtain ⟨-, -, hany⟩ := Token.isMarkOf_of_closes h
  rw [passVariable, hopening, hopens, hany]
  simp

/-- At a token that is no bracket a variable ends or goes on, with a value if the
token assigns one. -/
theorem passVariable_of_plain (hopens : t.opens? = none) (hcloses : t.closes? = none) :
    passVariable depth assigned past (t :: ts) =
      if depth = 0 ∧ (t.lexeme = .mark ';' ∨
          t.lexeme = .lineBreak ∧ variableContinues assigned past ts = false) then
        .bare past (t :: ts)
      else passVariable depth (assigned || decide (t.lexeme = .assign ∧ depth = 0))
        (t :: past) ts := by
  obtain ⟨hopening, -, hopens⟩ := Token.isMarkOf_of_opens_none hopens
  obtain ⟨-, -, hcloses⟩ := Token.isMarkOf_of_closes_none hcloses
  have hsemicolon : t.isMark ';' = true ↔ t.lexeme = .mark ';' :=
    Token.isMark_iff (by decide) (by decide)
  rw [passVariable, hopening, hopens, hcloses]
  by_cases hdepth : depth = 0 <;> by_cases hmark : t.lexeme = .mark ';' <;>
    by_cases hassign : t.lexeme = .assign <;>
      simp [hdepth, hsemicolon, hmark, hassign, Token.isLineBreak]

end Scans

variable {assigned : Bool} {past rest : List Token} {inner outer base final : List Bracket}

/-- A scan that ends where no bracket of its own is pending. -/
theorem exists_turns_refl (past rest : List Token) (hinner : inner = []) :
    ∃ left, (Cursor.mk past rest).Turns rest (inner ++ outer) left ∧
      left.count .brace = outer.count .brace := by
  subst hinner
  exact ⟨outer, .refl past rest outer, rfl⟩

/-- **Headers.**  A header hands over at the same number of curly brackets. -/
theorem passHeader_turns (hinner : Grounded inner) (hbase : OnlyBraces base)
    (hfinal : OnlyBraces final) (h : after (inner ++ outer ++ base) rest = some final) :
    ∃ left, (passHeader inner.length past rest).cursor.Turns rest (inner ++ outer) left ∧
      left.count .brace = outer.count .brace := by
  induction rest generalizing past inner outer with
  | nil =>
      obtain rfl := Option.some.inj h
      rw [List.append_assoc] at hfinal
      exact exists_turns_refl past [] (hinner.eq_nil hfinal)
  | cons t ts ih =>
      obtain ⟨mid, hturn, hrest⟩ := after_cons_eq_some_iff.mp h
      rcases turn_cases hturn with
        ⟨b, hopens, rfl⟩ | ⟨b, hcloses, hpending⟩ | ⟨hopens, hcloses, rfl⟩
      · rw [passHeader_of_opens _ _ _ hopens]
        split
        next hbody => exact exists_turns_refl past (t :: ts) (List.length_eq_zero_iff.mp hbody.2)
        next hbody =>
          have hground : Grounded (b :: inner) := by
            refine hinner.cons ?_
            rintro rfl hb
            exact hbody ⟨hb, rfl⟩
          obtain ⟨left, hturns, hcount⟩ := ih hground hrest
          exact ⟨left, hturns.cons (turn_of_opens hopens _), hcount⟩
      · rw [passHeader_of_closes _ _ _ hcloses]
        split
        next hbare => exact exists_turns_refl past (t :: ts) (List.length_eq_zero_iff.mp hbare.2)
        next hbare =>
          cases inner with
          | cons c inner =>
              obtain ⟨rfl, rfl⟩ := List.cons.inj hpending
              obtain ⟨left, hturns, hcount⟩ := ih hinner.tail hrest
              exact ⟨left, hturns.cons (turn_of_closes hcloses _), hcount⟩
          | nil =>
              have hb : b ≠ .brace := fun hb => hbare ⟨hb, rfl⟩
              cases outer with
              | nil =>
                  rw [List.nil_append, List.nil_append] at hpending
                  exact absurd (hbase b (hpending ▸ List.mem_cons_self)) hb
              | cons c outer =>
                  obtain ⟨rfl, rfl⟩ := List.cons.inj hpending
                  obtain ⟨left, hturns, hcount⟩ := ih .nil hrest
                  refine ⟨left, hturns.cons (turn_of_closes hcloses _), ?_⟩
                  rw [hcount, List.count_cons_of_ne hb]
      · rw [passHeader_of_plain _ _ _ hopens hcloses]
        split
        next hbare => exact exists_turns_refl past (t :: ts) (List.length_eq_zero_iff.mp hbare.1)
        next =>
          obtain ⟨left, hturns, hcount⟩ := ih hinner hrest
          exact ⟨left, hturns.cons (turn_of_plain hopens hcloses _), hcount⟩

/-- **Groups.**  A group hands over where its own brackets are closed. -/
theorem skipGroup_turns (hinner : Grounded inner) (hne : inner ≠ [])
    (hfinal : OnlyBraces final) (h : after (inner ++ outer ++ base) rest = some final) :
    (skipGroup (groups inner) past rest).Turns rest (inner ++ outer) outer := by
  induction rest generalizing past inner with
  | nil =>
      obtain rfl := Option.some.inj h
      rw [List.append_assoc] at hfinal
      exact absurd (hinner.eq_nil hfinal) hne
  | cons t ts ih =>
      obtain ⟨mid, hturn, hrest⟩ := after_cons_eq_some_iff.mp h
      rcases turn_cases hturn with
        ⟨b, hopens, rfl⟩ | ⟨b, hcloses, hpending⟩ | ⟨hopens, hcloses, rfl⟩
      · rw [skipGroup_of_opens _ _ _ hopens, ← groups_cons]
        have hground : Grounded (b :: inner) := hinner.cons fun hnil => absurd hnil hne
        exact (ih hground (List.cons_ne_nil b inner) hrest).cons (turn_of_opens hopens _)
      · rw [skipGroup_of_closes _ _ _ hcloses]
        obtain ⟨c, inner, rfl⟩ := List.exists_cons_of_ne_nil hne
        obtain ⟨rfl, rfl⟩ := List.cons.inj hpending
        rw [groups_cons]
        split
        next hb =>
          -- a curly bracket is never the outermost one of a group
          have hmore : inner ≠ [] := by
            rintro rfl
            exact hinner (by simp [hb])
          exact (ih hinner.tail hmore hrest).cons (turn_of_closes hcloses _)
        next hb =>
          split
          next hlast =>
            obtain rfl := hinner.tail.eq_nil_of_groups (by omega)
            exact (Cursor.Turns.refl (t :: past) ts outer).cons (turn_of_closes hcloses _)
          next hmore =>
            have hne : inner ≠ [] := by
              rintro rfl
              exact hmore (Nat.le_refl 1)
            rw [Nat.add_sub_cancel]
            exact (ih hinner.tail hne hrest).cons (turn_of_closes hcloses _)
      · rw [skipGroup_of_plain _ _ _ hopens hcloses]
        exact (ih hinner hne hrest).cons (turn_of_plain hopens hcloses _)

/-- A place where a variable ends: as many curly brackets are pending as in
`outer`.  Only at the end of the tokens brackets of its own may still be. -/
def Cursor.EndsVariable (c : Cursor) (rest : List Token) (pending outer : List Bracket) : Prop :=
  ∃ own left, c.Turns rest pending (own ++ left) ∧ left.count .brace = outer.count .brace ∧
    (own ≠ [] → c.rest = [])

theorem Cursor.EndsVariable.refl (past rest : List Token) (hinner : inner = []) :
    (Cursor.mk past rest).EndsVariable rest (inner ++ outer) outer := by
  subst hinner
  exact ⟨[], outer, .refl past rest outer, rfl, by simp⟩

theorem Cursor.EndsVariable.cons {c : Cursor} {t : Token} {pending mid : List Bracket}
    (h : c.EndsVariable rest mid outer) (hturn : turn pending t = some mid) :
    c.EndsVariable (t :: rest) pending outer := by
  obtain ⟨own, left, hturns, hcount, hown⟩ := h
  exact ⟨own, left, hturns.cons hturn, hcount, hown⟩

/-- **Variables.**  A variable hands over at the same number of curly brackets,
unless the tokens end in it. -/
theorem passVariable_turns (h : after (inner ++ outer ++ base) rest = some final) :
    (passVariable inner.length assigned past rest).cursor.EndsVariable rest (inner ++ outer)
      outer := by
  induction rest generalizing past inner assigned with
  | nil => exact ⟨inner, outer, .refl past [] _, rfl, fun _ => rfl⟩
  | cons t ts ih =>
      obtain ⟨mid, hturn, hrest⟩ := after_cons_eq_some_iff.mp h
      rcases turn_cases hturn with
        ⟨b, hopens, rfl⟩ | ⟨b, hcloses, hpending⟩ | ⟨hopens, hcloses, rfl⟩
      · rw [passVariable_of_opens _ _ _ _ hopens]
        split
        next hbody => exact .refl past (t :: ts) (List.length_eq_zero_iff.mp hbody.2.1)
        next =>
          have hdeeper : (b :: inner).length = inner.length + 1 := rfl
          rw [← hdeeper]
          exact (ih hrest).cons (turn_of_opens hopens _)
      · rw [passVariable_of_closes _ _ _ _ hcloses]
        split
        next hzero => exact .refl past (t :: ts) (List.length_eq_zero_iff.mp hzero)
        next hzero =>
          cases inner with
          | nil => exact absurd rfl hzero
          | cons c inner =>
              obtain ⟨rfl, rfl⟩ := List.cons.inj hpending
              exact (ih hrest).cons (turn_of_closes hcloses _)
      · rw [passVariable_of_plain _ _ _ _ hopens hcloses]
        split
        next hbare => exact .refl past (t :: ts) (List.length_eq_zero_iff.mp hbare.1)
        next => exact (ih hrest).cons (turn_of_plain hopens hcloses _)

/-- Past one more token. -/
theorem Cursor.Turns.snoc {c : Cursor} {t : Token} {past' rest' : List Token}
    {pending left next : List Bracket} (h : c.Turns rest pending left)
    (hrest : c.rest = t :: rest') (hturn : turn left t = some next) :
    (Cursor.mk past' rest').Turns rest pending next := by
  obtain ⟨passed, rfl, hafter⟩ := h
  refine ⟨passed ++ [t], by simp [hrest], ?_⟩
  rw [after_append, hafter, Option.bind_some, after_cons, hturn]
  rfl

end Outline

end DeclLint
