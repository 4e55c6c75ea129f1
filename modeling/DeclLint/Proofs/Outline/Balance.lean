import DeclLint.Proofs.Outline.Astray
import DeclLint.Proofs.Outline.Derivation
import DeclLint.Proofs.Outline.Frames

/-!
# Which texts the outline reader accepts

A run fails only at a closing curly bracket without a frame, or at the end with a
frame left.  As every step keeps the frames in line with the brackets that are
pending, the brackets of a text decide whether it is accepted.

* `declarationTree_of_nested` — a text whose brackets are properly nested has a
  tree;
* `declarationTree_braces` — a text has a tree just where the curly brackets of its
  bodies match each other, and which texts with a tree have balanced ones;
* `declarationTree_unbalanced` — a text that has a tree and no balanced ones.
-/

namespace DeclLint

namespace Outline

open DeclLint.Bracket

variable {rest : List Token} {inner outer base final current : List Bracket} {s : State}
  {t : Token}

/-- What a state keeps, the brackets further out keep as well. -/
theorem Cursor.Turns.after_rest {c : Cursor} {pending left : List Bracket}
    (h : c.Turns rest pending left) (hall : after (pending ++ base) rest = some final) :
    after (left ++ base) c.rest = some final := by
  obtain ⟨passed, rfl, hafter⟩ := h
  rw [after_append, after_append_outer hafter, Option.bind_some] at hall
  exact hall

/-- **Properly nested brackets are read to the end.** -/
theorem exists_run_eq_ok (hcount : current.count .brace = s.frames.length)
    (h : after current s.rest = some []) : ∃ ds, run s = .ok ds := by
  have hnone : OnlyBraces [] := by simp [OnlyBraces]
  fun_induction run s generalizing current with
  | case1 s hrest hframes => exact ⟨_, rfl⟩
  | case2 s hrest frame frames hframes =>
      rw [hrest] at h
      obtain rfl := Option.some.inj h
      simp [hframes] at hcount
  | case3 s t rest hrest e hstep =>
      rw [hrest, ← List.append_nil current] at h
      have hturns := step_turns hnone hnone hcount h
      rw [hstep] at hturns
      cases hturns with
      | fails hcloses hpending =>
          subst hpending
          obtain ⟨mid, hturn, -⟩ := after_cons_eq_some_iff.mp h
          simp [turn, hcloses, Token.opens?_of_closes? hcloses] at hturn
  | case4 s t rest hrest next hstep ih =>
      rw [hrest, ← List.append_nil current] at h
      have hturns := step_turns hnone hnone hcount h
      rw [hstep] at hturns
      cases hturns with
      | keeps hkeeps =>
          obtain ⟨left, hturns, hleft⟩ := hkeeps
          have hafter := hturns.after_rest h
          rw [List.append_nil] at hafter
          exact ih hleft hafter
      | leavesOpen hkind htakes hopen =>
          obtain ⟨hnil, hframes, own, left, hne, hafter, -⟩ := hopen
          rw [List.append_nil, hafter] at h
          exact absurd (Option.some.inj h) (by simp [hne])

/-- Brackets are properly nested but for some curly ones: with these opened in front
or closed behind, they would be. -/
def OnlyBracesAstray (ts : List Token) : Prop :=
  ∃ front back, (∀ t ∈ front, t.lexeme = .mark '{') ∧ (∀ t ∈ back, t.lexeme = .mark '}') ∧
    Nested (front ++ ts ++ back)

/-- The tokens end in a variable that has opened more curly brackets than it has closed. -/
def VariableLeftOpen (segments : List Segment) : Prop :=
  ∃ front word value, segments = front ++ [.stretch .definition word value] ∧
    closedBraces value < openedBraces value

/-- Behind opening curly brackets as many are pending. -/
theorem after_openingBraces {front : List Token} (h : ∀ t ∈ front, t.lexeme = .mark '{')
    (pending : List Bracket) :
    after pending front = some (List.replicate front.length .brace ++ pending) := by
  induction front generalizing pending with
  | nil => rfl
  | cons t ts ih =>
      have hopens : t.opens? = some .brace :=
        Token.opens?_eq_some_iff.mpr (h t List.mem_cons_self)
      refine after_cons_eq_some_iff.mpr ⟨_, turn_of_opens hopens pending, ?_⟩
      rw [ih (fun u hu => h u (List.mem_cons_of_mem t hu)), List.length_cons,
        List.replicate_succ', List.append_assoc]
      rfl

/-- What closing braces close are curly brackets. -/
theorem onlyBraces_of_after {back : List Token} {pending : List Bracket}
    (h : ∀ t ∈ back, t.lexeme = .mark '}') (hafter : after pending back = some []) :
    OnlyBraces pending := by
  induction back generalizing pending with
  | nil =>
      obtain rfl := Option.some.inj hafter
      simp [OnlyBraces]
  | cons t ts ih =>
      have hcloses : t.closes? = some .brace :=
        Token.closes?_eq_some_iff.mpr (h t List.mem_cons_self)
      obtain ⟨left, hturn, hrest⟩ := after_cons_eq_some_iff.mp hafter
      have hleft := ih (fun u hu => h u (List.mem_cons_of_mem t hu)) hrest
      rcases turn_cases hturn with ⟨b, hopens, -⟩ | ⟨b, hcloses', rfl⟩ | ⟨-, hnone, -⟩
      · simp [Token.opens?_of_closes? hcloses] at hopens
      · obtain rfl : Bracket.brace = b := Option.some.inj (hcloses.symm.trans hcloses')
        exact List.forall_mem_cons.mpr ⟨rfl, hleft⟩
      · simp [hcloses] at hnone

/-- Tokens with only curly brackets astray lead from curly brackets to curly
brackets. -/
theorem OnlyBracesAstray.exists_after {ts : List Token} (h : OnlyBracesAstray ts) :
    ∃ base final, OnlyBraces base ∧ OnlyBraces final ∧ after base ts = some final := by
  obtain ⟨front, back, hfront, hback, hnested⟩ := h
  have hall := hnested.after_eq []
  rw [List.append_assoc, after_append, after_openingBraces hfront, Option.bind_some,
    after_append] at hall
  obtain ⟨final, hts, hfinal⟩ := Option.bind_eq_some_iff.mp hall
  refine ⟨_, final, ?_, onlyBraces_of_after hback hfinal, hts⟩
  intro b hb
  rw [List.append_nil] at hb
  exact List.eq_of_mem_replicate hb

/-- Where the tokens end and no error comes of it, no frame is open. -/
theorem frames_eq_nil_of_run {ds : List Declaration} (hend : s.rest = [])
    (h : run s = .ok ds) : s.frames = [] := by
  rw [run_of_nil hend] at h
  split at h
  next hframes => exact hframes
  next => simp at h

/-- The tokens end in a variable.  No curly bracket is pending where it begins. -/
def EndsInVariable (pending : List Bracket) (past ts : List Token) : Prop :=
  ∃ front word value mid, Reads past ts (front ++ [.stretch .definition word value]) ∧
    ¬ IsBrace word ∧ after pending (front.flatMap Segment.tokens) = some mid ∧
    mid.count .brace = 0

/-- What is read before does not matter. -/
theorem EndsInVariable.append {s next : State} {passed ahead : List Token}
    {pending mid : List Bracket} {taken : List Segment}
    (h : EndsInVariable mid next.past next.rest) (hreads : s.ReadsTo next ahead taken)
    (hahead : ahead = passed ++ next.rest) (hpassed : after pending passed = some mid) :
    EndsInVariable pending s.past ahead := by
  obtain ⟨front, word, value, zero, htail, hword, hfront, hzero⟩ := h
  have hall := hreads.reads _ htail
  have htokens : taken.flatMap Segment.tokens = passed := by
    have hsplit := hall.flatMap_tokens
    rw [List.flatMap_append, htail.flatMap_tokens, hahead] at hsplit
    exact List.append_cancel_right hsplit
  refine ⟨taken ++ front, word, value, zero, ?_, hword, ?_, hzero⟩
  · rw [List.append_assoc]
    exact hall
  · rw [List.flatMap_append, htokens, after_append, hpassed]
    exact hfront

/-- Where the tokens end in a variable with curly brackets pending, these are its own. -/
theorem EndsInVariable.exists_reads {past ts : List Token} {left : List Bracket}
    (h : EndsInVariable [] past ts) (hleft : after [] ts = some left)
    (hne : left.count .brace ≠ 0) :
    ∃ segments, Reads past ts segments ∧ VariableLeftOpen segments := by
  obtain ⟨front, word, value, mid, hreads, hword, hfront, hmid⟩ := h
  refine ⟨_, hreads, front, word, value, rfl, ?_⟩
  have htokens := hreads.flatMap_tokens
  rw [List.flatMap_append, List.flatMap_singleton] at htokens
  rw [← htokens, after_append, hfront, Option.bind_some] at hleft
  have hcount := braces_after hleft
  have hnone := braces_of_not_isBrace hword
  rw [Segment.tokens, ← List.singleton_append, closedBraces_append, openedBraces_append] at hcount
  omega

/-- **A run keeps up with the curly brackets.**  None is pending when a run is over,
unless the tokens end in a variable. -/
theorem exists_after_of_run {ds : List Declaration} (hbase : OnlyBraces base)
    (hfinal : OnlyBraces final) (hcount : current.count .brace = s.frames.length)
    (h : after (current ++ base) s.rest = some final) (hrun : run s = .ok ds) :
    ∃ left, after current s.rest = some left ∧
      (left.count .brace = 0 ∨ EndsInVariable current s.past s.rest) := by
  fun_induction run s generalizing current with
  | case1 s hrest hframes =>
      rw [hframes] at hcount
      exact ⟨current, by rw [hrest]; rfl, .inl hcount⟩
  | case2 => simp at hrun
  | case3 => simp at hrun
  | case4 s t rest hrest next hstep ih =>
      rw [hrest] at h ⊢
      have hturns := step_turns hbase hfinal hcount h
      rw [hstep] at hturns
      cases hturns with
      | keeps hkeeps =>
          obtain ⟨mid, hturns, hmid⟩ := hkeeps
          obtain ⟨left, hleft, hcases⟩ := ih hmid (hturns.after_rest h) hrun
          obtain ⟨passed, hpassed, hafter⟩ := hturns
          obtain ⟨taken, hreads⟩ := exists_readsTo hstep
          refine ⟨left, ?_, hcases.imp id fun hends => hends.append hreads hpassed hafter⟩
          rw [hpassed, after_append, hafter]
          exact hleft
      | leavesOpen hkind htakes hopen =>
          obtain ⟨hend, hframes, own, left, hne, hafter, -⟩ := hopen
          -- the run ends here without an error, so no frame is open
          have hzero : current.count .brace = 0 := by
            rw [hcount, ← hframes, frames_eq_nil_of_run hend hrun]
            rfl
          have hreads : Reads s.past (t :: rest) ([] ++ [.stretch .definition t rest]) := by
            have hkind' : Introduces s.past t (rest ++ []) .definition := by
              rwa [List.append_nil]
            have hall := Reads.stretch hkind' htakes (.done _)
            rwa [List.append_nil] at hall
          exact ⟨own ++ left, hafter, .inr ⟨[], t, rest, current, hreads, hkind.not_isBrace, rfl,
            hzero⟩⟩

/-- Where the curly brackets of bodies match each other, all are balanced, unless those of a
stretch are not. -/
theorem Reads.bracesBalanced_or {past ts : List Token} {segments : List Segment}
    (h : Reads past ts segments) (hbodies : Nested (segments.filterMap Segment.brace?)) :
    BracesBalanced ts ∨ ∃ segment ∈ segments, ¬ BracesBalanced segment.following ∧
      (MixesKinds segment.following ∨
        (segments.getLast? = some segment ∧ EndsOpen segment.following)) := by
  by_cases hall : ∀ segment ∈ segments, BracesBalanced segment.following
  · have hcloses : ClosesBraces 0 ts := h.closesBraces (nested_iff.mp hbodies) hall
    exact .inl (closesBraces_zero_iff.mp hcloses)
  · simp only [Classical.not_forall] at hall
    obtain ⟨segment, hmem, hnot⟩ := hall
    exact .inr ⟨segment, hmem, hnot, (h.astray segment hmem).resolve_left hnot⟩

/-- A text that ends in a variable left open is not balanced. -/
theorem VariableLeftOpen.not_bracesBalanced {past ts : List Token} {segments : List Segment}
    (h : VariableLeftOpen segments) (hreads : Reads past ts segments) : ¬ BracesBalanced ts := by
  obtain ⟨front, word, value, rfl, hvalue⟩ := h
  intro hbalanced
  have htokens := hreads.flatMap_tokens
  rw [List.flatMap_append, List.flatMap_singleton] at htokens
  -- nothing before the variable may make up for what it leaves open
  have hfront := hbalanced.never_ahead (front.flatMap Segment.tokens ++ [word])
    ⟨value, by rw [← htokens, List.append_assoc]; rfl⟩
  have htotal := hbalanced.total
  rw [← htokens, Segment.tokens, ← List.singleton_append, ← List.append_assoc,
    closedBraces_append, openedBraces_append] at htotal
  omega

end Outline

open DeclLint.Bracket

variable {source : String} {pieces : List Piece} {root : Declaration}

/-- **Properly nested brackets are accepted.**  A text that can be cut into tokens and
whose round, square and curly brackets are nested and matched kind by kind has a
declaration tree, whatever stands between them. -/
theorem declarationTree_of_nested (hcut : cut source.toList = .ok pieces)
    (h : Nested (Token.ofPieces pieces)) : ∃ root, declarationTree source = .ok root := by
  obtain ⟨ds, hrun⟩ : ∃ ds, Outline.run { rest := Token.ofPieces pieces } = .ok ds :=
    @Outline.exists_run_eq_ok [] { rest := Token.ofPieces pieces } rfl (nested_iff.mp h)
  refine ⟨{ range := some ⟨0, source.utf8ByteSize⟩, children := ds }, ?_⟩
  rw [declarationTree_of_cut hcut, Outline.ofTokens, hrun]
  rfl

/-- A value with brackets of every kind does not keep a text from being read. -/
theorem declarationTree_of_nested_value :
    ∃ pieces root, cut "let x = [\x7by\x7d]".toList = .ok pieces ∧
      Nested (Token.ofPieces pieces) ∧ declarationTree "let x = [\x7by\x7d]" = .ok root := by
  have hcut : cut "let x = [\x7by\x7d]".toList = .ok
      [⟨.word, ['l', 'e', 't']⟩, ⟨.blank, [' ']⟩, ⟨.word, ['x']⟩, ⟨.blank, [' ']⟩,
        ⟨.mark, ['=']⟩, ⟨.blank, [' ']⟩, ⟨.mark, ['[']⟩, ⟨.mark, ['\x7b']⟩, ⟨.word, ['y']⟩,
        ⟨.mark, ['\x7d']⟩, ⟨.mark, [']']⟩] := by
    with_unfolding_all rfl
  have hnested : Nested (Token.ofPieces
      [⟨.word, ['l', 'e', 't']⟩, ⟨.blank, [' ']⟩, ⟨.word, ['x']⟩, ⟨.blank, [' ']⟩,
        ⟨.mark, ['=']⟩, ⟨.blank, [' ']⟩, ⟨.mark, ['[']⟩, ⟨.mark, ['\x7b']⟩, ⟨.word, ['y']⟩,
        ⟨.mark, ['\x7d']⟩, ⟨.mark, [']']⟩]) := by
    decide
  obtain ⟨root, htree⟩ := declarationTree_of_nested hcut hnested
  exact ⟨_, root, hcut, hnested, htree⟩

/-- A text that is cut has a tree just where its tokens hold declarations. -/
theorem exists_declarationTree_iff (hcut : cut source.toList = .ok pieces) :
    (∃ root, declarationTree source = .ok root) ↔
      ∃ ds, Outline.run { rest := Token.ofPieces pieces } = .ok ds := by
  rw [declarationTree_of_cut hcut, Outline.ofTokens]
  cases Outline.run { rest := Token.ofPieces pieces } with
  | ok ds => simp [Except.map]
  | error e => simp [Except.map]

/-- **Curly brackets.**  There is one way to cut the tokens of a text into curly brackets of
bodies, tokens that stand alone, and tokens with a stretch that is passed in one go.  The text
has a tree just where the curly brackets of bodies match each other.  If it has one and its
curly brackets are not balanced, those of a stretch are not: in it a bracket is closed by a mark
of another kind, or the tokens end in it with a bracket open.  Where only curly brackets are
astray, this is a variable in which the tokens end with more of them opened than closed. -/
theorem declarationTree_braces (hcut : cut source.toList = .ok pieces) :
    ∃ segments, (∀ others, Outline.Reads [] (Token.ofPieces pieces) others ↔ others = segments) ∧
      ((∃ root, declarationTree source = .ok root) ↔
        Nested (segments.filterMap Outline.Segment.brace?)) ∧
      ∀ root, declarationTree source = .ok root →
        (BracesBalanced (Token.ofPieces pieces) ∨
            ∃ segment ∈ segments, ¬ BracesBalanced segment.following ∧
              (MixesKinds segment.following ∨
                (segments.getLast? = some segment ∧ EndsOpen segment.following))) ∧
          (Outline.OnlyBracesAstray (Token.ofPieces pieces) →
            (BracesBalanced (Token.ofPieces pieces) ↔ ¬ Outline.VariableLeftOpen segments)) := by
  obtain ⟨segments, hreads⟩ := Outline.exists_reads [] (Token.ofPieces pieces)
  have haccepted : (∃ root, declarationTree source = .ok root) ↔
      Nested (segments.filterMap Outline.Segment.brace?) := by
    rw [exists_declarationTree_iff hcut, nested_iff]
    exact Outline.run_eq_ok_iff (s := { rest := Token.ofPieces pieces }) hreads
  refine ⟨segments, fun others => ⟨fun h => h.unique hreads, fun h => h ▸ hreads⟩, haccepted, ?_⟩
  intro root htree
  refine ⟨?_, fun hastray => ⟨fun hbalanced hopen => ?_, fun hclosed => ?_⟩⟩
  · exact hreads.bracesBalanced_or (haccepted.mp ⟨root, htree⟩)
  · exact hopen.not_bracesBalanced hreads hbalanced
  · obtain ⟨base, final, hbase, hfinal, hafter⟩ := hastray.exists_after
    obtain ⟨ds, hrun⟩ := (exists_declarationTree_iff hcut).mp ⟨root, htree⟩
    obtain ⟨left, hleft, hend⟩ : ∃ left, after [] (Token.ofPieces pieces) = some left ∧
        (left.count .brace = 0 ∨ Outline.EndsInVariable [] [] (Token.ofPieces pieces)) :=
      @Outline.exists_after_of_run base final [] { rest := Token.ofPieces pieces } _ hbase
        hfinal rfl hafter hrun
    by_cases hzero : left.count .brace = 0
    · exact .of_after hleft hzero
    · obtain ⟨others, hothers, hopen⟩ := (hend.resolve_left hzero).exists_reads hleft hzero
      exact absurd (hothers.unique hreads ▸ hopen) hclosed

/-- The pieces of a text whose variable mixes kinds of brackets. -/
def mixedValue : List Piece :=
  [⟨.word, ['l', 'e', 't']⟩, ⟨.blank, [' ']⟩, ⟨.word, ['x']⟩, ⟨.blank, [' ']⟩,
    ⟨.mark, ['=']⟩, ⟨.blank, [' ']⟩, ⟨.mark, ['(']⟩, ⟨.mark, ['\x7d']⟩]

theorem cut_mixedValue : cut "let x = (\x7d".toList = .ok mixedValue := by
  with_unfolding_all rfl

theorem declarationTree_mixedValue : declarationTree "let x = (\x7d" = .ok
    { range := some ⟨0, 10⟩
      children := [{ kind := some .varGlobal, range := some ⟨0, 10⟩ }] } := by
  with_unfolding_all rfl

theorem not_bracesBalanced_mixedValue : ¬ BracesBalanced (Token.ofPieces mixedValue) := by
  intro hbalanced
  exact absurd hbalanced.total (by decide)

/-- In one text the variable is left open, in the other it mixes kinds. -/
theorem declarationTree_braces_value :
    (∃ pieces root segments, cut "let x = \x7b".toList = .ok pieces ∧
      declarationTree "let x = \x7b" = .ok root ∧
      Outline.OnlyBracesAstray (Token.ofPieces pieces) ∧
      Outline.Reads [] (Token.ofPieces pieces) segments ∧ Outline.VariableLeftOpen segments) ∧
    ∃ root segments, cut "let x = (\x7d".toList = .ok mixedValue ∧
      declarationTree "let x = (\x7d" = .ok root ∧
      Outline.Reads [] (Token.ofPieces mixedValue) segments ∧
      ∃ segment ∈ segments, ¬ BracesBalanced segment.following := by
  constructor
  · have hcut : cut "let x = \x7b".toList = .ok
        [⟨.word, ['l', 'e', 't']⟩, ⟨.blank, [' ']⟩, ⟨.word, ['x']⟩, ⟨.blank, [' ']⟩,
          ⟨.mark, ['=']⟩, ⟨.blank, [' ']⟩, ⟨.mark, ['\x7b']⟩] := by
      with_unfolding_all rfl
    have htree : declarationTree "let x = \x7b" = .ok
        { range := some ⟨0, 9⟩
          children := [{ kind := some .varGlobal, range := some ⟨0, 9⟩ }] } := by
      with_unfolding_all rfl
    have hastray : Outline.OnlyBracesAstray (Token.ofPieces
        [⟨.word, ['l', 'e', 't']⟩, ⟨.blank, [' ']⟩, ⟨.word, ['x']⟩, ⟨.blank, [' ']⟩,
          ⟨.mark, ['=']⟩, ⟨.blank, [' ']⟩, ⟨.mark, ['\x7b']⟩]) :=
      ⟨[], [⟨.mark '\x7d', 9, 10⟩], by simp, by simp, by decide⟩
    obtain ⟨segments, hunique, -, hbraces⟩ := declarationTree_braces hcut
    refine ⟨_, _, segments, hcut, htree, hastray, (hunique segments).mpr rfl, ?_⟩
    apply Classical.byContradiction
    intro hclosed
    have hbalanced := ((hbraces _ htree).2 hastray).mpr hclosed
    exact absurd hbalanced.total (by decide)
  · obtain ⟨segments, hunique, -, hbraces⟩ := declarationTree_braces cut_mixedValue
    refine ⟨_, segments, cut_mixedValue, declarationTree_mixedValue, (hunique segments).mpr rfl, ?_⟩
    obtain ⟨segment, hmem, hnot, -⟩ :=
      (hbraces _ declarationTree_mixedValue).1.resolve_left not_bracesBalanced_mixedValue
    exact ⟨segment, hmem, hnot⟩

/-- A text with an unmatched curly bracket in its last value is accepted all the
same. -/
theorem declarationTree_unbalanced :
    ¬ ∀ source pieces root, cut (String.toList source) = .ok pieces →
      declarationTree source = .ok root → BracesBalanced (Token.ofPieces pieces) := by
  intro hall
  exact not_bracesBalanced_mixedValue
    (hall _ _ _ cut_mixedValue declarationTree_mixedValue)

end DeclLint
