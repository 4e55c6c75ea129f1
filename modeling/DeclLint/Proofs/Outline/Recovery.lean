import DeclLint.Proofs.Outline.Derivation
import DeclLint.Proofs.Outline.Line
import DeclLint.Proofs.Outline.Skeleton

/-!
# Skeletons are recovered

A printed skeleton is read line by line.  A reader that stands at a finished line and
has forgotten all modifiers takes the tokens of a declaration, has found what was
printed, and stands at a finished line again: the induction on the skeleton carries
nothing else.

* `Outline.run_before`, `Outline.run_declared` — the line of a variable;
* `Outline.run_header`, `Outline.run_closingLine` — the two ends of a body;
* `Outline.run_skeleton` — the lines of a skeleton;
* `declarationTree_skeleton` — the tree of its text.
-/

namespace DeclLint

open Skeleton

namespace Outline

section Variables

variable {past rest : List Token} {scope : Scope} {frames : List Frame}
  {found : List Declaration} {modifiers : Modifiers} {assigned : Bool}

/-- A type annotation is passed. -/
theorem passVariable_type (type : TypeAnnotation) (offset : Nat) :
    passVariable 0 assigned past (Atom.place offset type.atoms ++ rest) =
      passVariable 0 assigned ((Atom.place offset type.atoms).reverse ++ past) rest := by
  obtain ⟨name, isList, isOptional⟩ := type
  cases isList with
  | false =>
      cases isOptional with
      | false => exact passVariable_word rfl
      | true => exact (passVariable_word rfl).trans (passVariable_mark rfl (.inr rfl))
  | true =>
      cases isOptional with
      | false => exact passVariable_list rfl rfl rfl
      | true => exact (passVariable_list rfl rfl rfl).trans (passVariable_mark rfl (.inr rfl))

/-- The value of a variable is passed. -/
theorem passVariable_value (value : Option Digits) (offset : Nat) :
    ∃ valued, passVariable 0 false past (Atom.place offset (valueAtoms value) ++ rest) =
      passVariable 0 valued ((Atom.place offset (valueAtoms value)).reverse ++ past) rest := by
  cases value with
  | none => exact ⟨false, rfl⟩
  | some digits =>
      refine ⟨true, ?_⟩
      simp only [valueAtoms, Atom.place, Atom.lexeme?, Option.map_none, Option.map_some,
        Option.toList_none, Option.toList_some, List.nil_append, List.cons_append,
        List.reverse_cons, List.reverse_nil]
      rw [passVariable_assign rfl, passVariable_word rfl]

/-- Digits are none of the words that a pattern begins behind. -/
theorem digits_finishes (digits : Digits) : (Lexeme.word digits.text).Finishes := by
  intro hmem
  have hdigit : ∀ word ∈ bindingContexts, word.toList.all Char.isDigit = false := by decide
  have hnone := hdigit digits.text hmem
  rw [digits.digits] at hnone
  exact absurd hnone (by decide)

theorem name_finishes (name : Name) : (Lexeme.word name.text).Finishes := by
  intro hmem
  exact name.plain (by simp [meaningfulWords, hmem])

/-- Atoms whose last one may end a declaration. -/
def Finishing (as : List Atom) : Prop :=
  ∃ front last l, as = front ++ [last] ∧ last.lexeme? = some l ∧ l.Finishes

theorem Finishing.singleton {a : Atom} {l : Lexeme} (ha : a.lexeme? = some l)
    (hl : l.Finishes) : Finishing [a] :=
  ⟨[], a, l, rfl, ha, hl⟩

theorem Finishing.append_left {as : List Atom} (h : Finishing as) (more : List Atom) :
    Finishing (more ++ as) := by
  obtain ⟨front, last, l, rfl, hlast, hl⟩ := h
  exact ⟨more ++ front, last, l, (List.append_assoc ..).symm, hlast, hl⟩

/-- A line may end behind a type. -/
theorem finishing_type (type : TypeAnnotation) : Finishing type.atoms := by
  obtain ⟨name, isList, isOptional⟩ := type
  cases isOptional with
  | true =>
      have hmark : Finishing [.optional] := .singleton rfl (mark_finishes (by decide))
      exact hmark.append_left _
  | false =>
      cases isList with
      | true =>
          have hmark : Finishing [.closes .square] := .singleton rfl (mark_finishes (by decide))
          exact hmark.append_left [.opens .square, .word name.word]
      | false => exact .singleton rfl (name_finishes name)

/-- **A line may end behind a variable.** -/
theorem finishing_declared (v : Skeleton.Variable) : Finishing v.declared := by
  unfold Variable.declared
  cases v.value with
  | some digits =>
      have hdigits : Finishing [.word digits.word] := .singleton rfl (digits_finishes digits)
      exact (hdigits.append_left [.space, .assign, .space]).append_left _
  | none =>
      rw [valueAtoms, List.append_nil]
      exact (finishing_type v.type).append_left _

variable {offset : Nat} {as : List Atom}

/-- What is printed last is passed last. -/
theorem Finishing.exists_reverse_place (h : Finishing as) (offset : Nat) (past : List Token) :
    ∃ t earlier, (Atom.place offset as).reverse ++ past = t :: earlier ∧ t.lexeme.Finishes ∧
      t.stop = offset + Atom.size as := by
  obtain ⟨front, last, l, rfl, hlast, hl⟩ := h
  refine ⟨⟨l, offset + Atom.size front, offset + Atom.size (front ++ [last])⟩,
    (Atom.place offset front).reverse ++ past, ?_, hl, rfl⟩
  simp [Atom.place_append, Atom.place, hlast, Nat.add_assoc]

theorem Finished.place (h : Finishing as) :
    Finished ((Atom.place offset as).reverse ++ past) := by
  obtain ⟨t, earlier, hplace, ht, -⟩ := h.exists_reverse_place offset past
  rw [hplace]
  exact .cons ht

/-- Atoms that end in a finishing one stop where their text ends. -/
theorem lastStop_place (h : Finishing as) :
    lastStop ((Atom.place offset as).reverse ++ past) = offset + Atom.size as := by
  obtain ⟨t, earlier, hplace, ht, hstop⟩ := h.exists_reverse_place offset past
  have hne : t.lexeme ≠ .lineBreak := by
    intro hbreak
    rw [hbreak] at ht
    exact ht
  rw [hplace, lastStop, significant?_cons_of_ne hne]
  exact hstop

/-- The tokens of a variable: the introducing word, the name and a colon, then those of
the type and the value. -/
theorem exists_place_declared (v : Skeleton.Variable) (offset : Nat) :
    ∃ word name colon : Token,
      word.lexeme = .word (if v.isConstant then keyword "let" else keyword "var").text ∧
      name.lexeme = .word v.name.text ∧ colon.lexeme = .mark ':' ∧ word.start = offset ∧
      ∃ annotated assigned, Atom.place offset v.declared =
        word :: name :: colon :: (Atom.place annotated v.type.atoms ++
          Atom.place assigned (valueAtoms v.value)) := by
  unfold Variable.declared
  rw [Atom.place_append, Atom.place_append]
  exact ⟨_, _, _, rfl, rfl, rfl, rfl, _, _, rfl⟩

/-- **A variable.**  Its line declares it. -/
theorem run_declared (v : Skeleton.Variable) (hpast : Finished past) (hrest : EndsLine rest) :
    run ⟨past, Atom.place offset v.declared ++ rest, scope, frames, found, modifiers⟩ =
      run ⟨(Atom.place offset v.declared).reverse ++ past, rest, scope, frames,
        { kind := some (variableKind scope modifiers)
          range := some ⟨offset, Atom.size v.declared⟩
          setterAccessibility := modifiers.setterAccessibility } :: found, {}⟩ := by
  obtain ⟨word, name, colon, hword, hname, hcolon, hstart, annotated, assigned, hplace⟩ :=
    exists_place_declared v offset
  have hfinished : Finished ((Atom.place offset v.declared).reverse ++ past) :=
    .place (finishing_declared v)
  have hpass : passVariable 0 false (word :: past)
      (name :: colon :: (Atom.place annotated v.type.atoms ++
        (Atom.place assigned (valueAtoms v.value) ++ rest))) =
      .bare ((Atom.place offset v.declared).reverse ++ past) rest := by
    obtain ⟨valued, hvalue⟩ := @passVariable_value
      ((Atom.place annotated v.type.atoms).reverse ++ colon :: name :: word :: past) rest v.value
      assigned
    have hall : (Atom.place assigned (valueAtoms v.value)).reverse ++
        ((Atom.place annotated v.type.atoms).reverse ++ colon :: name :: word :: past) =
          (Atom.place offset v.declared).reverse ++ past := by
      simp [hplace]
    rw [passVariable_word hname, passVariable_mark hcolon (.inl rfl), passVariable_type,
      hvalue, hall, passVariable_of_ends hfinished hrest]
  have hbetween : ByteRange.between word.start
      (lastStop ((Atom.place offset v.declared).reverse ++ past)) =
        ⟨offset, Atom.size v.declared⟩ := by
    rw [lastStop_place (finishing_declared v), hstart, ByteRange.between, Nat.add_sub_cancel_left]
  have hkeyword : (if v.isConstant then keyword "let" else keyword "var").text = "let" ∨
      (if v.isConstant then keyword "let" else keyword "var").text = "var" := by
    cases v.isConstant <;> simp [keyword]
  have hahead : Atom.place offset v.declared ++ rest =
      word :: name :: colon :: (Atom.place annotated v.type.atoms ++
        (Atom.place assigned (valueAtoms v.value) ++ rest)) := by
    simp [hplace]
  rw [hahead, run_variable hword hkeyword hpast hpass, hbetween]

theorem place_indentation (indent : List Blank) (offset : Nat) :
    Atom.place offset (indentation indent) = [] := by
  induction indent generalizing offset with
  | nil => rfl
  | cons blank indent ih =>
      cases blank <;> exact ih _

theorem Finished.accessAtoms (h : Finished past)
    (access : Option {word : String // word ∈ accessLevels}) (offset : Nat) :
    Finished ((Atom.place offset (accessAtoms access)).reverse ++ past) := by
  cases access with
  | none => exact h
  | some access => exact .cons (mark_finishes (by decide))

/-- An access level is kept as the accessibility of the setter. -/
theorem run_accessAtoms (access : Option {word : String // word ∈ accessLevels}) (offset : Nat) :
    run ⟨past, Atom.place offset (accessAtoms access) ++ rest, scope, frames, found, {}⟩ =
      run ⟨(Atom.place offset (accessAtoms access)).reverse ++ past, rest, scope, frames, found,
        { setterAccessibility := access.map fun access => setterOfAccess access.1 }⟩ := by
  cases access with
  | none => rfl
  | some access => exact run_access access.2 rfl rfl rfl rfl

theorem Finished.staticAtoms (h : Finished past) (isStatic : Bool) (offset : Nat) :
    Finished ((Atom.place offset (staticAtoms isStatic)).reverse ++ past) := by
  cases isStatic with
  | true => exact .cons static_finishes
  | false => exact h

/-- `static` is kept as well. -/
theorem run_staticAtoms (isStatic : Bool) (setter : Option String) (offset : Nat) :
    run ⟨past, Atom.place offset (staticAtoms isStatic) ++ rest, scope, frames, found,
      { setterAccessibility := setter }⟩ =
      run ⟨(Atom.place offset (staticAtoms isStatic)).reverse ++ past, rest, scope, frames, found,
        { isStatic := isStatic, setterAccessibility := setter }⟩ := by
  cases isStatic with
  | true => exact run_static rfl
  | false => rfl

theorem Finished.before (h : Finished past) (v : Skeleton.Variable) (offset : Nat) :
    Finished ((Atom.place offset v.before).reverse ++ past) := by
  rw [Variable.before, Atom.place_append, Atom.place_append, place_indentation, List.nil_append,
    List.reverse_append, List.append_assoc]
  exact (h.accessAtoms v.access _).staticAtoms v.isStatic _

/-- **Before a variable.**  What is printed there is kept as its modifiers. -/
theorem run_before (v : Skeleton.Variable) (offset : Nat) :
    run ⟨past, Atom.place offset v.before ++ rest, scope, frames, found, {}⟩ =
      run ⟨(Atom.place offset v.before).reverse ++ past, rest, scope, frames, found,
        { isStatic := v.isStatic
          setterAccessibility := v.access.map fun access => setterOfAccess access.1 }⟩ := by
  rw [Variable.before, Atom.place_append, Atom.place_append, place_indentation, List.nil_append,
    List.append_assoc, run_accessAtoms, run_staticAtoms, List.reverse_append, List.append_assoc]

/-- The declaration of a variable is the one that was printed. -/
theorem declaration_eq (v : Skeleton.Variable) (scope : Scope) (offset : Nat) :
    v.declaration scope offset =
      { kind := some (variableKind scope { isStatic := v.isStatic
                                           setterAccessibility := v.access.map fun access =>
                                             setterOfAccess access.1 })
        range := some ⟨offset + Atom.size v.before, Atom.size v.declared⟩
        setterAccessibility := v.access.map fun access => setterOfAccess access.1 } := by
  cases scope <;> rfl

/-- **A header.**  Its body is entered. -/
theorem run_header (header : Header) (hpast : Finished past) (scope : Scope) (offset : Nat) :
    ∃ brace : Token, brace.stop = offset + Atom.size header.atoms ∧ ∀ rest frames found,
      run ⟨past, Atom.place offset header.atoms ++ rest, scope, frames, found, {}⟩ =
        run ⟨(Atom.place offset header.atoms).reverse ++ past, rest, header.scope,
          ⟨.body (header.kind scope) offset, brace, scope, found⟩ :: frames, [], {}⟩ := by
  cases header with
  | function name =>
      have hkind : functionKind "func" scope {} = (Header.function name).kind scope := by
        cases scope <;> rfl
      rw [← hkind]
      refine ⟨_, ?_, fun _ _ _ => run_function hpast rfl rfl rfl rfl rfl⟩
      simp [Header.atoms, Nat.add_assoc]
  | type word name =>
      have hkind : typeKind word.word.text = (Header.type word name).kind scope := by
        cases word <;> rfl
      have hword : word.word.text ∈ typeIntroducers := by
        cases word <;> decide
      have hname : name.text ∉ classModifierFollowers := by
        intro hmem
        exact name.plain (by simp [meaningfulWords, hmem])
      rw [← hkind]
      refine ⟨_, ?_, fun _ _ _ => run_type hpast hword hname rfl rfl rfl⟩
      simp [Header.atoms, Nat.add_assoc]

end Variables

section Runs

variable {past rest : List Token} {scope : Scope} {frames : List Frame}
  {found : List Declaration}

theorem Finished.lead {lead : List Atom} (h : Finished past) (hlead : IsLead lead)
    (offset : Nat) : Finished ((Atom.place offset lead).reverse ++ past) := by
  rcases hlead with rfl | rfl
  · exact h
  · exact h.cons_lineBreak rfl

theorem run_lead {lead : List Atom} (hlead : IsLead lead) (offset : Nat) :
    run ⟨past, Atom.place offset lead ++ rest, scope, frames, found, {}⟩ =
      run ⟨(Atom.place offset lead).reverse ++ past, rest, scope, frames, found, {}⟩ := by
  rcases hlead with rfl | rfl
  · rfl
  · exact run_lineBreak rfl

/-- The lines of a skeleton end the line before them. -/
theorem EndsLine.skeleton (s : Skeleton) (h : EndsLine rest) (offset : Nat) :
    EndsLine (Atom.place offset (s.atoms [.lineBreak]) ++ rest) := by
  cases s with
  | nil => exact h
  | line v others =>
      obtain ⟨indent, access, isStatic, isConstant, name, type, value⟩ := v
      simp only [Skeleton.atoms, Variable.before, Atom.place_append, place_indentation,
        List.append_assoc, List.nil_append]
      cases access with
      | some access => exact .of_word rfl rfl
      | none =>
          cases isStatic with
          | true => exact .of_word rfl rfl
          | false => exact .of_word rfl rfl
  | body indent header inside closing others =>
      simp only [Skeleton.atoms, Atom.place_append, place_indentation, List.append_assoc,
        List.nil_append]
      cases header with
      | function name => exact .of_word rfl rfl
      | type word name => exact .of_word rfl rfl

theorem place_closingLine (closing : List Blank) (offset : Nat) :
    Atom.place offset (closingLine closing) =
      [⟨.lineBreak, offset, offset + 1⟩,
        ⟨.mark '}', offset + Atom.size (.lineBreak :: indentation closing),
          offset + Atom.size (.lineBreak :: indentation closing) + 1⟩] := by
  rw [closingLine, Atom.place_append, Atom.place, place_indentation]
  rfl

theorem size_closingLine (closing : List Blank) :
    Atom.size (closingLine closing) = Atom.size (.lineBreak :: indentation closing) + 1 := by
  rw [closingLine, Atom.size_append]
  rfl

/-- The last line of a body ends the one before it. -/
theorem EndsLine.closingLine (closing : List Blank) (offset : Nat) :
    EndsLine (Atom.place offset (closingLine closing) ++ rest) := by
  rw [place_closingLine]
  exact .of_close rfl rfl

/-- **The end of a body.**  It declares what the body belongs to. -/
theorem run_closingLine {kind : DeclarationKind} {start : Nat} {brace : Token} {outer : Scope}
    {siblings : List Declaration} (closing : List Blank) (offset : Nat) :
    run ⟨past, Atom.place offset (closingLine closing) ++ rest, scope,
      ⟨.body kind start, brace, outer, siblings⟩ :: frames, found, {}⟩ =
      run ⟨(Atom.place offset (closingLine closing)).reverse ++ past, rest, outer, frames,
        { kind := some kind
          range := some (ByteRange.between start
            (offset + Atom.size (.lineBreak :: indentation closing) + 1))
          bodyLength :=
            some (offset + Atom.size (.lineBreak :: indentation closing) - brace.stop)
          children := found.reverse } :: siblings, {}⟩ := by
  rw [place_closingLine]
  exact (run_lineBreak rfl).trans (run_close rfl)

/-- The atoms of a header end in a finishing one. -/
theorem finishing_header (header : Header) : Finishing header.atoms := by
  have hbrace : Finishing [.opens .brace] := .singleton rfl (mark_finishes (by decide))
  cases header with
  | function name =>
      exact hbrace.append_left
        [.word (keyword "func"), .space, .word name.word, .opens .round, .closes .round, .space]
  | type word name =>
      exact hbrace.append_left [.word word.word, .space, .word name.word, .space]

theorem finishing_closingLine (closing : List Blank) : Finishing (closingLine closing) :=
  have hbrace : Finishing [.closes .brace] := .singleton rfl (mark_finishes (by decide))
  hbrace.append_left (.lineBreak :: indentation closing)

/-- A line may end behind a skeleton, if it may end before it. -/
theorem Finished.skeleton (s : Skeleton) {lead : List Atom} (hlead : IsLead lead)
    (h : Finished past) (offset : Nat) :
    Finished ((Atom.place offset (s.atoms lead)).reverse ++ past) := by
  induction s generalizing past lead offset with
  | nil => exact h
  | line v others ih =>
      simp only [Skeleton.atoms, Atom.place_append, List.reverse_append, List.append_assoc]
      exact ih (.inr rfl) (.place (finishing_declared v)) _
  | body indent header inside closing others ihinside ih =>
      rw [Skeleton.atoms, Atom.place_append, List.reverse_append, List.append_assoc]
      exact ih (.inr rfl) (.place ((finishing_closingLine closing).append_left _)) _

/-- **A skeleton.**  Its lines declare its declarations. -/
theorem run_skeleton (s : Skeleton) {lead : List Atom} (hlead : IsLead lead)
    (hpast : Finished past) (hrest : EndsLine rest) (offset : Nat) :
    run ⟨past, Atom.place offset (s.atoms lead) ++ rest, scope, frames, found, {}⟩ =
      run ⟨(Atom.place offset (s.atoms lead)).reverse ++ past, rest, scope, frames,
        (s.declarations scope offset lead).reverse ++ found, {}⟩ := by
  induction s generalizing past rest scope frames found lead offset with
  | nil => rfl
  | line v others ih =>
      have hlead' := hpast.lead hlead offset
      have hbefore := hlead'.before v (offset + Atom.size lead)
      have hnext := EndsLine.skeleton others hrest
        (offset + Atom.size lead + Atom.size v.before + Atom.size v.declared)
      simp only [Skeleton.atoms, Skeleton.declarations, Atom.place_append, List.append_assoc,
        List.reverse_append, List.reverse_cons]
      rw [run_lead hlead, run_before, run_declared v hbefore hnext,
        ih (.inr rfl) (.place (finishing_declared v)) hrest, declaration_eq]
      rfl
  | body indent header inside closing others ihinside ih =>
      have hlead' := hpast.lead hlead offset
      obtain ⟨brace, hbrace, hheader⟩ := run_header header hlead' scope
        (offset + Atom.size lead + Atom.size (indentation indent))
      simp only [Skeleton.atoms, Skeleton.declarations, Atom.place_append, List.append_assoc,
        List.reverse_append, List.reverse_cons, place_indentation, List.nil_append,
        size_closingLine, ← Nat.add_assoc]
      rw [run_lead hlead, hheader,
        ihinside (.inr rfl) (.place (finishing_header header)) (.closingLine closing _),
        run_closingLine, ih (.inr rfl) (.place (finishing_closingLine closing)) hrest]
      simp [ByteRange.between, hbrace]

/-- **The outline of a skeleton.**  It holds the declarations that were printed. -/
theorem ofTokens_skeleton (s : Skeleton) (ended : Bool) :
    ofTokens (Atom.place 0 (s.atoms [] ++ ending ended)) = .ok (s.declarations .file 0 []) := by
  have hends : EndsLine (Atom.place (0 + Atom.size (s.atoms [])) (ending ended)) := by
    cases ended <;> simp [EndsLine, ending, Atom.place, Atom.lexeme?, significant?, significant,
      Token.isLineBreak]
  rw [ofTokens, Atom.place_append, run_skeleton s (.inl rfl) .nil hends]
  cases ended with
  | false =>
      rw [run_of_nil rfl]
      simp
  | true =>
      refine (run_lineBreak rfl).trans ?_
      rw [run_of_nil rfl]
      simp

end Runs

end Outline

/-- **Skeletons are recovered.**  The text of a skeleton is read as the declarations that
were printed: one for each, in their order and nesting, with the kind that its
introducing word and its scope dictate, and with a setter accessibility where one was
printed. -/
theorem declarationTree_skeleton (s : Skeleton) (ended : Bool) :
    declarationTree (s.text ended) = .ok
      { range := some ⟨0, (s.text ended).utf8ByteSize⟩
        children := s.declarations .file 0 [] } := by
  have hchain : (s.atoms [] ++ Skeleton.ending ended).IsChain Atom.Joins := by
    apply Skeleton.isChain_append_lines (s.isChain_atoms (.inl rfl))
    · cases ended <;> simp [Skeleton.ending]
    · cases ended <;> simp [Skeleton.ending]
  have hcut : cut (s.text ended).toList =
      .ok ((s.atoms [] ++ Skeleton.ending ended).map Atom.piece) := by
    rw [Skeleton.text, String.toList_ofList]
    exact Atom.cut_text hchain
  rw [declarationTree_of_cut hcut, Atom.ofPieces_pieces hchain, Outline.ofTokens_skeleton]
  rfl

end DeclLint
