import DeclLint.Proofs.Outline.Segment

/-!
# How the brackets of a stretch go astray

A stretch is passed with one counter for all kinds of brackets, and it may end with the
tokens.  So its curly brackets are balanced, unless a bracket in it is closed by a mark of
another kind, or the tokens end where one of its brackets is open.  A list of the open
brackets is kept beside the counter (`Leaves`): as long as neither happens, the two agree.

* `Bracket.MixesKinds`, `Bracket.EndsOpen` — the two ways to go astray;
* `Outline.Takes.astray` — there is no third one for a stretch;
* `Outline.Reads.astray` — and only the last stretch of a text may end open.
-/

namespace DeclLint

namespace Bracket

/-- A bracket is closed by a mark of another kind. -/
def MixesKinds (ts : List Token) : Prop :=
  ∃ front first inner last back b c, ts = front ++ first :: (inner ++ last :: back) ∧
    first.opens? = some b ∧ last.closes? = some c ∧ b ≠ c ∧ Nested inner

/-- The tokens end where a bracket is open. -/
def EndsOpen (ts : List Token) : Prop :=
  ∃ front first inner b, ts = front ++ first :: inner ∧ first.opens? = some b ∧ Nested inner

/-- Some tokens leave brackets open, innermost first.  Behind the mark that opened one,
everything is properly nested up to the mark that opened the next; before the first one, the
curly brackets are balanced. -/
inductive Leaves : List Bracket → List Token → Prop
  | ground {ts : List Token} (h : BracesBalanced ts) : Leaves [] ts
  | opened {pending : List Bracket} {front inner : List Token} {first : Token} {b : Bracket}
      (h : Leaves pending front) (hfirst : first.opens? = some b) (hinner : Nested inner) :
      Leaves (b :: pending) (front ++ first :: inner)

variable {pending : List Bracket} {ts xs ys front : List Token} {t : Token} {b c : Bracket}

theorem Nested.append (hxs : Nested xs) (hys : Nested ys) : Nested (xs ++ ys) := by
  rw [nested_iff, after_append, hxs.after_eq, Option.bind_some]
  exact hys.after_eq []

theorem Nested.bracesBalanced (h : Nested ts) : BracesBalanced ts :=
  .of_after (h.after_eq []) rfl

theorem BracesBalanced.append (hxs : BracesBalanced xs) (hys : BracesBalanced ys) :
    BracesBalanced (xs ++ ys) :=
  Outline.closesBraces_zero_iff.mp ((Outline.closesBraces_zero_iff.mpr hys).append hxs)

/-- Properly nested tokens leave open what was open. -/
theorem Leaves.append (h : Leaves pending front) (hts : Nested ts) :
    Leaves pending (front ++ ts) := by
  cases h with
  | ground hbalanced => exact .ground (hbalanced.append hts.bracesBalanced)
  | opened hfront hfirst hinner =>
      rw [List.append_assoc]
      exact .opened hfront hfirst (hinner.append hts)

theorem Leaves.plain (h : Leaves pending front) (hopens : t.opens? = none)
    (hcloses : t.closes? = none) : Leaves pending (front ++ [t]) :=
  h.append (.plain hopens hcloses .nil)

theorem Leaves.opens (h : Leaves pending front) (hopens : t.opens? = some b) :
    Leaves (b :: pending) (front ++ [t]) :=
  .opened h hopens .nil

/-- A round or square bracket that nothing has opened does not matter. -/
theorem Leaves.stray (h : Leaves [] front) (hcloses : t.closes? = some b) (hb : b ≠ .brace) :
    Leaves [] (front ++ [t]) := by
  have hbrace : ¬ Outline.IsBrace t := by
    rw [Outline.IsBrace, Token.closes?_eq_some_iff.mp hcloses]
    cases b <;> simp_all [closing]
  have hnil : Outline.ClosesBraces 0 [] := Outline.closesBraces_zero_iff.mpr Nested.nil.bracesBalanced
  have hone := hnil.cons (by rw [Outline.braces_of_not_isBrace hbrace])
  cases h with
  | ground hbalanced => exact .ground (hbalanced.append (Outline.closesBraces_zero_iff.mp hone))

/-- The innermost bracket is closed by a mark of its kind. -/
theorem Leaves.closes (h : Leaves (b :: pending) front) (hcloses : t.closes? = some b) :
    Leaves pending (front ++ [t]) := by
  cases h with
  | opened hfront hfirst hinner =>
      have hgroup := hfront.append (.group hfirst hcloses hinner .nil)
      simpa using hgroup

/-- The innermost bracket is closed by a mark of another kind. -/
theorem Leaves.mixesKinds (h : Leaves (b :: pending) front) (hcloses : t.closes? = some c)
    (hne : b ≠ c) (back : List Token) : MixesKinds (front ++ t :: back) := by
  cases h with
  | @opened _ front inner first _ _ hfirst hinner =>
      exact ⟨front, first, inner, t, back, b, c, by simp, hfirst, hcloses, hne, hinner⟩

theorem Leaves.bracesBalanced (h : Leaves [] front) : BracesBalanced front := by
  cases h with
  | ground hbalanced => exact hbalanced

theorem Leaves.endsOpen (h : Leaves (b :: pending) front) : EndsOpen front := by
  cases h with
  | @opened _ front inner first _ _ hfirst hinner => exact ⟨front, first, inner, b, rfl, hfirst, hinner⟩

end Bracket

namespace Outline

open DeclLint.Bracket

/-- The curly brackets of a stretch are balanced, or it mixes kinds, or the tokens end in it
with a bracket open. -/
def Astray (passed rest : List Token) : Prop :=
  BracesBalanced passed ∨ MixesKinds passed ∨ (rest = [] ∧ EndsOpen passed)

variable {pending : List Bracket} {front passed rest past : List Token} {t : Token}
  {stops : List Token → Token → List Token → Prop} {kind : Introduction}

/-- Where the tokens end, brackets may be open. -/
theorem astray_of_end (h : Leaves pending front) : Astray front [] := by
  cases pending with
  | nil => exact .inl h.bracesBalanced
  | cons b pending => exact .inr (.inr ⟨rfl, h.endsOpen⟩)

/-- **One counter for all brackets.**  A scan that counts every bracket, and is ended by a
closing curly bracket where none is open, takes no third way. -/
theorem Passes.astray (h : Passes everyBracket stops front passed rest)
    (hstops : ∀ front t rest, t.closes? = some .brace → stops front t rest)
    (hleaves : Leaves pending front) (hlevel : level everyBracket front = pending.length) :
    Astray (front ++ passed) rest := by
  induction h generalizing pending with
  | finish front =>
      rw [List.append_nil]
      exact astray_of_end hleaves
  | stop hzero _ =>
      obtain rfl := List.length_eq_zero_iff.mp (hlevel.symm.trans hzero)
      rw [List.append_nil]
      exact .inl hleaves.bracesBalanced
  | @pass front passed rest t hgoes tail ih =>
      rw [List.append_cons]
      rcases bracket_cases t with ⟨b, hopens⟩ | ⟨b, hcloses⟩ | ⟨hopens, hcloses⟩
      · refine ih (hleaves.opens hopens) ?_
        rw [level_concat, deepen_of_opens hopens, hlevel]
        rfl
      · have hless : level everyBracket (front ++ [t]) = pending.length - 1 := by
          rw [level_concat, deepen_of_closes hcloses, hlevel]
          rfl
        cases pending with
        | nil =>
            have hb : b ≠ .brace := by
              rintro rfl
              exact hgoes hlevel (hstops _ _ _ hcloses)
            exact ih (hleaves.stray hcloses hb) hless
        | cons c pending =>
            by_cases hc : c = b
            · subst hc
              exact ih (hleaves.closes hcloses) hless
            · rw [← List.append_cons]
              exact .inr (.inl (hleaves.mixesKinds hcloses hc passed))
      · refine ih (hleaves.plain hopens hcloses) ?_
        rw [level_concat, deepen_of_plain hopens hcloses, hlevel]

/-- **A counter for round and square brackets.**  A group that has begun takes no third way. -/
theorem astray_of_group (h : Passes groupBracket GroupStops front passed rest) (hne : front ≠ [])
    (hleaves : Leaves pending front) (hlevel : level groupBracket front = groups pending)
    (hground : Grounded pending) : Astray (front ++ passed) rest := by
  induction h generalizing pending with
  | finish front =>
      rw [List.append_nil]
      exact astray_of_end hleaves
  | stop hzero _ =>
      obtain rfl := hground.eq_nil_of_groups (hlevel.symm.trans hzero)
      rw [List.append_nil]
      exact .inl hleaves.bracesBalanced
  | @pass front passed rest t hgoes tail ih =>
      have hopen : groups pending ≠ 0 := fun hzero => hgoes (hlevel.trans hzero) hne
      have hmore : front ++ [t] ≠ [] := List.append_ne_nil_of_right_ne_nil front (by simp)
      rw [List.append_cons]
      rcases bracket_cases t with ⟨b, hopens⟩ | ⟨b, hcloses⟩ | ⟨hopens, hcloses⟩
      · refine ih hmore (hleaves.opens hopens) ?_ (hground.cons fun hnil => ?_)
        · rw [level_concat, deepen_of_opens hopens, hlevel, groups_cons]
          cases b <;> rfl
        · exact absurd (by rw [hnil]; rfl) hopen
      · cases pending with
        | nil => exact absurd rfl hopen
        | cons c pending =>
            by_cases hc : c = b
            · subst hc
              refine ih hmore (hleaves.closes hcloses) ?_ hground.tail
              rw [level_concat, deepen_of_closes hcloses, hlevel, groups_cons]
              cases c <;> rfl
            · rw [← List.append_cons]
              exact .inr (.inl (hleaves.mixesKinds hcloses hc passed))
      · refine ih hmore (hleaves.plain hopens hcloses) ?_ hground
        rw [level_concat, deepen_of_plain hopens hcloses, hlevel]

/-- **Arguments.** -/
theorem IsArguments.astray (h : IsArguments passed rest) : Astray passed rest := by
  cases h with
  | missing => exact .inl Nested.nil.bracesBalanced
  | @group first inner rest hfirst hpasses =>
      cases hpasses with
      | pass _ tail =>
          have hopens : first.opens? = some .round := Token.opens?_eq_some_iff.mpr hfirst
          have hleaves : Leaves [.round] [first] :=
            (Leaves.ground Nested.nil.bracesBalanced).opens hopens
          have hground : Grounded [.round] := Grounded.nil.cons (by simp)
          exact astray_of_group tail (List.cons_ne_nil first []) hleaves (deepen_of_opens hopens 0)
            hground

/-- A token that is no bracket may stand in front. -/
theorem Astray.cons (h : Astray passed rest) (hopens : t.opens? = none)
    (hcloses : t.closes? = none) : Astray (t :: passed) rest := by
  rcases h with hbalanced | hmixes | ⟨hend, hopen⟩
  · have hone : Nested [t] := .plain hopens hcloses .nil
    exact .inl (hone.bracesBalanced.append hbalanced)
  · obtain ⟨front, first, inner, last, back, b, c, rfl, hmixed⟩ := hmixes
    exact .inr (.inl ⟨t :: front, first, inner, last, back, b, c, rfl, hmixed⟩)
  · obtain ⟨front, first, inner, b, rfl, hfirst⟩ := hopen
    exact .inr (.inr ⟨hend, t :: front, first, inner, b, rfl, hfirst⟩)

/-- **Stretches.**  What is passed in one go has balanced curly brackets, or it mixes kinds, or
the tokens end in it with a bracket open. -/
theorem Takes.astray (h : Takes past kind passed rest) : Astray passed rest := by
  have hnone : Leaves [] [] := .ground Nested.nil.bracesBalanced
  cases h with
  | @decoration name arguments rest hname harguments =>
      obtain ⟨word, hword⟩ := Token.isWord_eq_true_iff.mp hname
      have hplain : ∀ c, name.lexeme ≠ .mark c := by simp [hword]
      obtain ⟨hopens, hcloses⟩ := Token.plain_of_lexeme hplain
      exact harguments.astray.cons hopens hcloses
  | modifier harguments => exact harguments.astray
  | header hpasses =>
      exact hpasses.astray (fun _ _ _ h => (headerStops_of_closes h).mpr rfl) hnone rfl
  | definition hpasses =>
      exact hpasses.astray (fun _ _ _ h => variableStops_of_closes h) hnone rfl

/-- **Segments.**  So it is with every stretch of a text, and only the last one may end open. -/
theorem Reads.astray {ts : List Token} {segments : List Segment} (h : Reads past ts segments) :
    ∀ segment ∈ segments, BracesBalanced segment.following ∨ MixesKinds segment.following ∨
      (segments.getLast? = some segment ∧ EndsOpen segment.following) := by
  have hlast (first : Segment) {others : List Segment} {segment : Segment}
      (h : others.getLast? = some segment) : (first :: others).getLast? = some segment := by
    rw [List.getLast?_cons, h, Option.getD_some]
  induction h with
  | done => exact fun _ hmem => absurd hmem List.not_mem_nil
  | brace _ _ ih | plain _ _ _ ih =>
      refine List.forall_mem_cons.mpr ⟨.inl Nested.nil.bracesBalanced, fun segment hmem => ?_⟩
      exact (ih segment hmem).imp id (.imp id (.imp (hlast _) id))
  | stretch _ htakes tail ih =>
      refine List.forall_mem_cons.mpr ⟨htakes.astray.imp id (.imp id ?_), fun segment hmem => ?_⟩
      · rintro ⟨rfl, hopen⟩
        cases tail with
        | done => exact ⟨rfl, hopen⟩
      · exact (ih segment hmem).imp id (.imp id (.imp (hlast _) id))

end Outline

end DeclLint
