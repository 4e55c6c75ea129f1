import DeclLint.Proofs.Outline.Move
import DeclLint.Proofs.Text.Span

/-!
# The declarations that tokens hold

Reading with a list of open braces follows a grammar without one: tokens hold
declarations in order, each either without body or with the declarations that
the tokens between two braces hold (`Holds`).  While the reader is under way,
the tokens it has passed are cut into stretches by the open braces, and each
stretch holds the declarations found at its level (`Reached`).

* `Outline.Holds.append` — what two stretches hold, one after the other;
* `Outline.Move.sound` — a move keeps the invariant;
* `Outline.holds_of_run`, `Outline.holds_of_ofTokens` — a run that succeeds has
  a derivation over all tokens.
-/

namespace DeclLint

namespace Outline

/-- The declarations of a body once it is closed: those inside a block stand
where the block does. -/
def Owner.declare (owner : Owner) (brace closing : Token) (inside : List Declaration) :
    List Declaration :=
  match owner with
  | .block => inside
  | .body kind start =>
      [{ kind := some kind
         range := some (ByteRange.between start closing.stop)
         bodyLength := some (closing.start - brace.stop)
         children := inside }]
  | .accessors kind start setter =>
      [{ kind := some kind
         range := some (ByteRange.between start closing.stop)
         bodyLength := some (closing.start - brace.stop)
         setterAccessibility := setter }]

theorem Frame.close_eq (frame : Frame) (closing : Token) (found : List Declaration) :
    frame.close closing found =
      (frame.owner.declare frame.brace closing found.reverse).reverse ++ frame.siblings := by
  unfold Frame.close Owner.declare
  cases frame.owner <;> simp

/-- Tokens hold declarations, in order.  What belongs to none is passed. -/
inductive Holds : Scope → List Token → List Declaration → Prop
  | nil (scope : Scope) : Holds scope [] []
  | pass {scope : Scope} {ts : List Token} {ds : List Declaration} (t : Token)
      (tail : Holds scope ts ds) : Holds scope (t :: ts) ds
  | declare {scope : Scope} {introduction ts : List Token} {d : Declaration}
      {ds : List Declaration} (hd : Declares scope introduction d)
      (tail : Holds scope ts ds) : Holds scope (introduction ++ ts) (d :: ds)
  | body {scope inside : Scope} {introduction inner ts : List Token} {owner : Owner}
      {brace closing : Token} {ds members : List Declaration}
      (hopens : Opens scope introduction owner inside)
      (hbrace : brace.lexeme = .mark '{') (hclosing : closing.lexeme = .mark '}')
      (hinner : Holds inside inner members) (tail : Holds scope ts ds) :
      Holds scope (introduction ++ brace :: (inner ++ closing :: ts))
        (owner.declare brace closing members ++ ds)

namespace Holds

variable {scope : Scope} {xs ys : List Token} {ds es : List Declaration}

/-- Two stretches of tokens hold what they hold one after the other. -/
theorem append (hxs : Holds scope xs ds) (hys : Holds scope ys es) :
    Holds scope (xs ++ ys) (ds ++ es) := by
  induction hxs with
  | nil => exact hys
  | pass t _ ih => exact .pass t (ih hys)
  | declare hd _ ih =>
      rw [List.append_assoc]
      exact .declare hd (ih hys)
  | body hopens hbrace hclosing hinner _ _ ih =>
      have hall := Holds.body hopens hbrace hclosing hinner (ih hys)
      simpa [List.append_assoc] using hall

/-- Tokens that are all passed hold nothing. -/
theorem passed (scope : Scope) (xs : List Token) : Holds scope xs [] := by
  induction xs with
  | nil => exact .nil scope
  | cons t ts ih => exact .pass t ih

theorem declared {introduction : List Token} {d : Declaration}
    (hd : Declares scope introduction d) : Holds scope introduction [d] := by
  simpa using Holds.declare hd (.nil scope)

end Holds

/-- Where the reader is: `Reached scope past frames found` says that the tokens
passed, last first, are cut by the open braces into stretches that hold what
was found at their levels. -/
inductive Reached : Scope → List Token → List Frame → List Declaration → Prop
  | file {past : List Token} {found : List Declaration}
      (hholds : Holds .file past.reverse found.reverse) : Reached .file past [] found
  | inside {scope inside : Scope} {outer introduction inner : List Token}
      {frames : List Frame} {siblings found : List Declaration} {owner : Owner}
      {brace : Token} (houter : Reached scope outer frames siblings)
      (hopens : Opens scope introduction owner inside)
      (hbrace : brace.lexeme = .mark '{')
      (hholds : Holds inside inner found.reverse) :
      Reached inside (inner.reverse ++ brace :: (introduction.reverse ++ outer))
        (⟨owner, brace, scope, siblings⟩ :: frames) found

namespace Reached

variable {scope inside : Scope} {past ts : List Token} {frames : List Frame}
  {found ds : List Declaration}

/-- The innermost stretch grows by tokens and by what they hold. -/
theorem extend (h : Reached scope past frames found) (hts : Holds scope ts ds) :
    Reached scope (ts.reverse ++ past) frames (ds.reverse ++ found) := by
  cases h with
  | file hholds =>
      apply Reached.file
      have hall := hholds.append hts
      simpa using hall
  | @inside outerScope _ outer introduction inner frames siblings _ owner brace
      houter hopens hbrace hholds =>
      have hall : Holds scope (inner ++ ts) (ds.reverse ++ found).reverse := by
        simpa using hholds.append hts
      have hinside := Reached.inside houter hopens hbrace hall
      simpa using hinside

/-- Where nothing is open, all that was passed holds what was found. -/
theorem holds (h : Reached scope past [] found) : Holds .file past.reverse found.reverse := by
  cases h with
  | file hholds => exact hholds

/-- A body begins with an empty stretch. -/
theorem enter {introduction : List Token} {owner : Owner} {brace : Token}
    (h : Reached scope past frames found) (hopens : Opens scope introduction owner inside)
    (hbrace : brace.lexeme = .mark '{') :
    Reached inside (brace :: (introduction.reverse ++ past))
      (⟨owner, brace, scope, found⟩ :: frames) [] := by
  have hnil : Holds inside [] ([] : List Declaration).reverse := .nil inside
  have hinside := Reached.inside h hopens hbrace hnil
  simpa using hinside

/-- A body that is left becomes part of the stretch around it. -/
theorem leave {frame : Frame} {closing : Token}
    (h : Reached scope past (frame :: frames) found)
    (hclosing : closing.lexeme = .mark '}') :
    Reached frame.scope (closing :: past) frames (frame.close closing found) := by
  cases h with
  | @inside outerScope _ outer introduction inner frames siblings _ owner brace
      houter hopens hbrace hholds =>
      have hbody := Holds.body hopens hbrace hclosing hholds (.nil outerScope)
      have hall := houter.extend hbody
      rw [Frame.close_eq]
      simpa using hall

end Reached

/-- The invariant of a run over the tokens `all`. -/
structure State.Sound (all : List Token) (s : State) : Prop where
  all_eq : all = s.past.reverse ++ s.rest
  reached : Reached s.scope s.past s.frames s.found

/-- **A move keeps the invariant.** -/
theorem Move.sound {all ahead : List Token} {s next : State} (h : Move s ahead next)
    (hs : s.Sound all) (hahead : s.rest = ahead) : next.Sound all := by
  have hall := hs.all_eq
  rw [hahead] at hall
  cases h with
  | @pass passed rest modifiers hsplit =>
      refine ⟨by simp [hall, hsplit], ?_⟩
      simpa using hs.reached.extend (Holds.passed s.scope passed)
  | @declare passed rest d hsplit hd =>
      refine ⟨by simp [hall, hsplit, State.settle], ?_⟩
      simpa [State.settle] using hs.reached.extend (Holds.declared hd)
  | @enter passed rest brace owner inside hsplit hbrace hopens =>
      refine ⟨by simp [hall, hsplit, State.enter], ?_⟩
      exact hs.reached.enter hopens hbrace
  | @leave closing rest frame frames hsplit hclosing hframes =>
      refine ⟨by simp [hall, hsplit], ?_⟩
      have hreached := hs.reached
      rw [hframes] at hreached
      exact hreached.leave hclosing

/-- **A run has a derivation.**  If reading succeeds from a state that the
invariant holds of, all tokens hold what is found. -/
theorem holds_of_run {all : List Token} {s : State} {ds : List Declaration}
    (hs : s.Sound all) (h : run s = .ok ds) : Holds .file all ds := by
  fun_induction run s with
  | case1 s hrest hframes =>
      obtain rfl := Except.ok.inj h
      have hall : all = s.past.reverse := by
        rw [hs.all_eq, hrest, List.append_nil]
      have hreached := hs.reached
      rw [hframes] at hreached
      exact hall ▸ hreached.holds
  | case2 => simp at h
  | case3 => simp at h
  | case4 s t rest hrest next hstep ih =>
      exact ih ((step_move hstep).sound hs hrest) h

/-- The tokens of a file hold the declarations that are read from them. -/
theorem holds_of_ofTokens {tokens : List Token} {ds : List Declaration}
    (h : ofTokens tokens = .ok ds) : Holds .file tokens ds := by
  have hstart : Reached .file [] [] [] := .file (.nil .file)
  exact holds_of_run ⟨rfl, hstart⟩ h

end Outline

/-- A text that is cut has the tree of its tokens. -/
theorem declarationTree_of_cut {source : String} {pieces : List Piece}
    (h : cut source.toList = .ok pieces) :
    declarationTree source = (Outline.ofTokens (Token.ofPieces pieces)).map fun children =>
      { range := some ⟨0, source.utf8ByteSize⟩, children := children } := by
  unfold declarationTree
  rw [h]
  simp only [bind, Except.bind, pure, Except.pure]
  cases Outline.ofTokens (Token.ofPieces pieces) <;> rfl

/-- Only a text that is cut has a tree. -/
theorem exists_cut_of_declarationTree {source : String} {root : Declaration}
    (h : declarationTree source = .ok root) :
    ∃ pieces, cut source.toList = .ok pieces ∧
      Outline.ofTokens (Token.ofPieces pieces) = .ok root.children ∧ root.kind = none ∧
        root.range = some ⟨0, source.utf8ByteSize⟩ := by
  obtain ⟨pieces, hcut, hrest⟩ := exists_of_bind_eq_ok h
  obtain ⟨children, htokens, hroot⟩ := exists_of_bind_eq_ok hrest
  obtain rfl := Except.ok.inj hroot
  exact ⟨pieces, hcut, htokens, rfl, rfl⟩

end DeclLint
