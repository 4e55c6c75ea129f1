import DeclLint.Proofs.Source.Atom
import DeclLint.Source.Outline

/-!
# Declaration skeletons

A skeleton is what is left of a source text when only its declarations are kept:
types and functions with what is inside them, and variables.  It is printed with one
declaration on a line, indented at will, and the declarations that its text holds are
told without a look at the text.

* `Skeleton.atoms`, `Skeleton.text` — the printed skeleton;
* `Skeleton.declarations` — the declarations that were printed.
-/

namespace DeclLint

/-- Every word that the outline reader gives a meaning to. -/
def meaningfulWords : List String :=
  Outline.declarationModifiers ++ Outline.accessLevels ++ Outline.classModifierFollowers ++
    Outline.bindingContexts ++ Outline.headerContinuers ++ Outline.typeIntroducers ++
    Outline.functionIntroducers ++ Outline.observerWords ++ ["static", "let", "var", "set"]

/-- Whether a text is an ASCII identifier. -/
def isIdentifier (text : String) : Bool :=
  match text.toList with
  | [] => false
  | c :: cs => (c.isAlpha || c == '_') && cs.all fun d => d.isAlphanum || d == '_'

namespace Skeleton

/-- The name of a declaration or a type. -/
structure Name where
  text : String
  identifier : isIdentifier text = true
  plain : text ∉ meaningfulWords

/-- The digits of a value. -/
structure Digits where
  text : String
  ne_nil : text.toList ≠ []
  digits : text.toList.all Char.isDigit = true

/-- A blank of an indentation. -/
inductive Blank where
  | space
  | tab

/-- What a type is introduced by. -/
inductive TypeWord where
  | structType
  | classType
  | enumType
  | protocolType
  | extensionType
  | actorType

/-- The type of a variable: a name, perhaps in square brackets, perhaps optional. -/
structure TypeAnnotation where
  name : Name
  isList : Bool
  isOptional : Bool

/-- A variable on a line of its own. -/
structure Variable where
  indent : List Blank
  /-- Who may set the variable, if that is said. -/
  access : Option {word : String // word ∈ Outline.accessLevels}
  isStatic : Bool
  /-- Whether it is introduced by `let`, not by `var`. -/
  isConstant : Bool
  name : Name
  type : TypeAnnotation
  value : Option Digits

/-- What a body belongs to. -/
inductive Header where
  | function (name : Name)
  | type (word : TypeWord) (name : Name)

end Skeleton

/-- A list of declarations, nested to any depth.  A body has a line of its own for the
closing brace, with an indentation of its own. -/
inductive Skeleton where
  | nil
  | line (v : Skeleton.Variable) (others : Skeleton)
  | body (indent : List Skeleton.Blank) (header : Skeleton.Header) (inside : Skeleton)
      (closing : List Skeleton.Blank) (others : Skeleton)

namespace Skeleton

theorem Name.chars_ne_nil (n : Name) : n.text.toList ≠ [] := by
  intro hnil
  have hidentifier := n.identifier
  simp [isIdentifier, hnil] at hidentifier

/-- Names consist of word characters. -/
theorem Name.isWordChar_of_mem (n : Name) : ∀ c ∈ n.text.toList, isWordChar c = true := by
  have hidentifier := n.identifier
  unfold isIdentifier at hidentifier
  split at hidentifier
  next => simp at hidentifier
  next c cs htext =>
    simp only [Bool.and_eq_true, List.all_eq_true] at hidentifier
    obtain ⟨hfirst, hothers⟩ := hidentifier
    have hword : ∀ d : Char, (d.isAlphanum || d == '_') = true → isWordChar d = true := by
      intro d hd
      simp only [isWordChar, hd, Bool.true_or]
    rw [htext]
    refine List.forall_mem_cons.mpr ⟨hword c ?_, fun d hd => hword d (hothers d hd)⟩
    simp only [Char.isAlphanum, Bool.or_eq_true] at hfirst ⊢
    rcases hfirst with halpha | hscore
    · exact .inl (.inl halpha)
    · exact .inr hscore

theorem Digits.isWordChar_of_mem (n : Digits) : ∀ c ∈ n.text.toList, isWordChar c = true := by
  intro c hc
  simp [isWordChar, Char.isAlphanum, List.all_eq_true.mp n.digits c hc]

/-- The name as a printed word. -/
def Name.word (n : Name) : Word := ⟨n.text, n.chars_ne_nil, n.isWordChar_of_mem⟩

/-- The digits as a printed word. -/
def Digits.word (n : Digits) : Word := ⟨n.text, n.ne_nil, n.isWordChar_of_mem⟩

/-- A word of the language as a printed word. -/
def keyword (text : String) (ne_nil : text.toList ≠ [] := by decide)
    (isWordChars : text.toList.all isWordChar = true := by decide) : Word :=
  ⟨text, ne_nil, List.all_eq_true.mp isWordChars⟩

/-- The atoms of an indentation. -/
def indentation (indent : List Blank) : List Atom :=
  indent.map fun
    | .space => .space
    | .tab => .tab

/-- The word that introduces a type. -/
def TypeWord.word : TypeWord → Word
  | structType => keyword "struct"
  | classType => keyword "class"
  | enumType => keyword "enum"
  | protocolType => keyword "protocol"
  | extensionType => keyword "extension"
  | actorType => keyword "actor"

/-- The kind of a type. -/
def TypeWord.kind : TypeWord → DeclarationKind
  | structType => .structType
  | classType => .classType
  | enumType => .enumType
  | protocolType => .protocolType
  | extensionType => .extension
  | actorType => .actorType

/-- The atoms of a type annotation: a name, in brackets if it is a list, with a mark if
it is optional. -/
def TypeAnnotation.atoms (t : TypeAnnotation) : List Atom :=
  (if t.isList then [.opens .square, .word t.name.word, .closes .square]
    else [.word t.name.word]) ++
  (if t.isOptional then [.optional] else [])

/-- An access level as a printed word. -/
def accessWord (access : {word : String // word ∈ Outline.accessLevels}) : Word :=
  have hwords : ∀ word ∈ Outline.accessLevels,
      word.toList ≠ [] ∧ word.toList.all isWordChar = true := by decide
  ⟨access.1, (hwords access.1 access.2).1, List.all_eq_true.mp (hwords access.1 access.2).2⟩

/-- The atoms of the words that say who may set a variable. -/
def accessAtoms : Option {word : String // word ∈ Outline.accessLevels} → List Atom
  | some access =>
      [.word (accessWord access), .opens .round, .word (keyword "set"), .closes .round, .space]
  | none => []

/-- The atoms of an assigned value. -/
def valueAtoms : Option Digits → List Atom
  | some digits => [.space, .assign, .space, .word digits.word]
  | none => []

/-- The atoms that make a variable static. -/
def staticAtoms (isStatic : Bool) : List Atom :=
  if isStatic then [.word (keyword "static"), .space] else []

namespace Variable

/-- What is printed before the introducing word. -/
def before (v : Variable) : List Atom :=
  indentation v.indent ++ accessAtoms v.access ++ staticAtoms v.isStatic

/-- What is printed from the introducing word on. -/
def declared (v : Variable) : List Atom :=
  [.word (if v.isConstant then keyword "let" else keyword "var"), .space, .word v.name.word,
    .colon, .space] ++ v.type.atoms ++ valueAtoms v.value

/-- The kind of a variable, as its scope dictates. -/
def kind (v : Variable) : Outline.Scope → DeclarationKind
  | .file => .varGlobal
  | .code => .varLocal
  | .type => if v.isStatic then .varStatic else .varInstance

/-- The declaration of a variable whose line is printed at an offset. -/
def declaration (v : Variable) (scope : Outline.Scope) (offset : Nat) : Declaration where
  kind := some (v.kind scope)
  range := some ⟨offset + Atom.size v.before, Atom.size v.declared⟩
  setterAccessibility := v.access.map fun access => Outline.setterOfAccess access.1

end Variable

namespace Header

/-- What is printed from the introducing word to the brace that opens the body. -/
def atoms : Header → List Atom
  | function name =>
      [.word (keyword "func"), .space, .word name.word, .opens .round, .closes .round, .space,
        .opens .brace]
  | type word name => [.word word.word, .space, .word name.word, .space, .opens .brace]

/-- The kind of what the body belongs to, as its scope dictates. -/
def kind (header : Header) (scope : Outline.Scope) : DeclarationKind :=
  match header, scope with
  | function _, .type => .functionMethodInstance
  | function _, _ => .functionFree
  | type word _, _ => word.kind

/-- The scope of the body. -/
def scope : Header → Outline.Scope
  | function _ => .code
  | type _ _ => .type

end Header

/-- The line that closes a body. -/
def closingLine (closing : List Blank) : List Atom :=
  .lineBreak :: indentation closing ++ [.closes .brace]

/-- The lines of a skeleton, the first one behind `lead`, each other one behind a line
break. -/
def atoms (lead : List Atom) : Skeleton → List Atom
  | nil => []
  | line v others => lead ++ v.before ++ v.declared ++ others.atoms [.lineBreak]
  | body indent header inside closing others =>
      lead ++ indentation indent ++ header.atoms ++ inside.atoms [.lineBreak] ++
        closingLine closing ++ others.atoms [.lineBreak]

/-- What is printed behind the last line, which may be ended. -/
def ending (ended : Bool) : List Atom := if ended then [.lineBreak] else []

/-- The text of a skeleton. -/
def text (s : Skeleton) (ended : Bool) : String :=
  String.ofList (Atom.text (s.atoms [] ++ ending ended))

/-- A property in a struct, as it is printed. -/
example :
    (body [] (.type .structType ⟨"S", by decide, by decide⟩)
      (line
        { indent := [.space]
          access := some ⟨"private", by decide⟩
          isStatic := true
          isConstant := false
          name := ⟨"a", by decide, by decide⟩
          type := ⟨⟨"N", by decide, by decide⟩, true, true⟩
          value := some ⟨"10", by decide, by decide⟩ } nil) [] nil).text true =
      "struct S \x7b\n private(set) static var a: [N]? = 10\n\x7d\n" := by
  decide

/-- The declarations of a skeleton that is printed at an offset, the first line behind
`lead`. -/
def declarations (scope : Outline.Scope) (offset : Nat) (lead : List Atom) :
    Skeleton → List Declaration
  | nil => []
  | line v others =>
      v.declaration scope (offset + Atom.size lead) ::
        others.declarations scope
          (offset + Atom.size lead + Atom.size v.before + Atom.size v.declared) [.lineBreak]
  | body indent header inside closing others =>
      let start := offset + Atom.size lead + Atom.size (indentation indent)
      let opened := start + Atom.size header.atoms
      let closed := opened + Atom.size (inside.atoms [.lineBreak]) +
        Atom.size (.lineBreak :: indentation closing)
      { kind := some (header.kind scope)
        range := some ⟨start, closed + 1 - start⟩
        bodyLength := some (closed - opened)
        children := inside.declarations header.scope opened [.lineBreak] } ::
          others.declarations scope (closed + 1) [.lineBreak]

/-! No two atoms of a printed skeleton run into each other. -/

/-- What may stand before the first line of a skeleton: nothing, or a line break. -/
def IsLead (lead : List Atom) : Prop := lead = [] ∨ lead = [.lineBreak]

theorem joins_lineBreak (a : Atom) : a.Joins .lineBreak := by
  cases a <;> trivial

theorem lineBreak_joins (a : Atom) : Atom.Joins .lineBreak a := by
  cases a <;> trivial

/-- Lines do not run into each other. -/
theorem isChain_append_lines {as bs : List Atom} (has : as.IsChain Atom.Joins)
    (hbs : bs.IsChain Atom.Joins) (hlines : ∀ b ∈ bs.head?, b = .lineBreak) :
    (as ++ bs).IsChain Atom.Joins := by
  refine List.isChain_append.mpr ⟨has, hbs, ?_⟩
  intro a _ b hb
  rw [hlines b hb]
  exact joins_lineBreak a

theorem isChain_lead {lead as : List Atom} (hlead : IsLead lead) (h : as.IsChain Atom.Joins) :
    (lead ++ as).IsChain Atom.Joins := by
  rcases hlead with rfl | rfl
  · exact h
  · exact List.isChain_cons.mpr ⟨fun a _ => lineBreak_joins a, h⟩

/-- Blanks may stand before atoms that may stand side by side, unless the first one is an
optional mark, which nothing may set off. -/
theorem isChain_indentation (indent : List Blank) {as : List Atom} (h : as.IsChain Atom.Joins)
    (hfirst : as.head? ≠ some .optional) : (indentation indent ++ as).IsChain Atom.Joins := by
  induction indent with
  | nil => exact h
  | cons blank indent ih =>
      have hnext : (indentation indent ++ as).head? ≠ some .optional := by
        cases indent with
        | nil => exact hfirst
        | cons next indent => cases next <;> simp [indentation]
      refine List.isChain_cons.mpr ⟨?_, ih⟩
      intro a ha
      have hne : a ≠ .optional := by
        rintro rfl
        exact hnext ha
      cases blank <;> cases a <;> trivial

theorem isChain_declared (v : Variable) : v.declared.IsChain Atom.Joins := by
  obtain ⟨-, -, -, isConstant, name, ⟨typeName, isList, isOptional⟩, value⟩ := v
  cases isList <;> cases isOptional <;> cases value <;>
    simp [Variable.declared, TypeAnnotation.atoms, valueAtoms, Atom.Joins]

/-- An access level may stand before what does not begin with `?`. -/
theorem isChain_accessAtoms (access : Option {word : String // word ∈ Outline.accessLevels})
    {as : List Atom} (h : as.IsChain Atom.Joins) (hfirst : as.head? ≠ some .optional) :
    (accessAtoms access ++ as).IsChain Atom.Joins := by
  cases access with
  | none => exact h
  | some access =>
      have hspace := isChain_indentation [.space] h hfirst
      simpa [accessAtoms, indentation, Atom.Joins] using hspace

theorem isChain_staticAtoms (isStatic : Bool) {as : List Atom} (h : as.IsChain Atom.Joins)
    (hfirst : as.head? ≠ some .optional) : (staticAtoms isStatic ++ as).IsChain Atom.Joins := by
  cases isStatic with
  | false => exact h
  | true =>
      have hspace := isChain_indentation [.space] h hfirst
      simpa [staticAtoms, indentation, Atom.Joins] using hspace

theorem isChain_line (v : Variable) : (v.before ++ v.declared).IsChain Atom.Joins := by
  have hstatic := isChain_staticAtoms v.isStatic (isChain_declared v) (by simp [Variable.declared])
  have haccess := isChain_accessAtoms v.access hstatic (by
    cases v.isStatic <;> simp [staticAtoms, Variable.declared])
  rw [Variable.before, List.append_assoc, List.append_assoc]
  refine isChain_indentation v.indent haccess ?_
  cases v.access <;> cases v.isStatic <;> simp [accessAtoms, staticAtoms, Variable.declared]

theorem isChain_header (header : Header) : header.atoms.IsChain Atom.Joins := by
  cases header <;> simp [Header.atoms, Atom.Joins]

theorem isChain_closingLine (closing : List Blank) :
    (closingLine closing).IsChain Atom.Joins := by
  refine List.isChain_cons.mpr ⟨fun a _ => lineBreak_joins a, ?_⟩
  exact isChain_indentation closing (.singleton _) (by simp)

theorem head?_atoms (s : Skeleton) : ∀ a ∈ (s.atoms [.lineBreak]).head?, a = .lineBreak := by
  cases s <;> simp [atoms]

/-- **Printed skeletons.**  No two of their atoms run into each other. -/
theorem isChain_atoms (s : Skeleton) {lead : List Atom} (hlead : IsLead lead) :
    (s.atoms lead).IsChain Atom.Joins := by
  induction s generalizing lead with
  | nil => exact .nil
  | line v others ih =>
      rw [atoms, List.append_assoc lead]
      exact isChain_append_lines (isChain_lead hlead (isChain_line v)) (ih (.inr rfl))
        (head?_atoms others)
  | body indent header inside closing others ihinside ih =>
      have hheader : (lead ++ indentation indent ++ header.atoms).IsChain Atom.Joins := by
        rw [List.append_assoc]
        exact isChain_lead hlead (isChain_indentation indent (isChain_header header) (by
          cases header <;> simp [Header.atoms]))
      have hinside := isChain_append_lines hheader (ihinside (.inr rfl)) (head?_atoms inside)
      have hclosing := isChain_append_lines hinside (isChain_closingLine closing) (by
        simp [closingLine])
      exact isChain_append_lines hclosing (ih (.inr rfl)) (head?_atoms others)

end Skeleton

end DeclLint
