import DeclLint.Source.Token
import DeclLint.Declaration.Tree

/-!
# The declaration outline of a source text

No parser of the language: the tokens are read once, left to right, and only
what a structure request would report is kept, that is type declarations,
functions with their bodies, and `let`/`var` declarations with their setter
accessibility and accessor bodies.  A declaration's span starts at its
introducing word, and a variable's runs to the end of its initializer.

The reader keeps what is open in a list of frames, innermost first, and never
goes back: every step consumes a token (`step_rest_le`), so reading ends with
the tree or at the first brace that has no partner.

* `Outline.step` — one step of the reader;
* `Outline.ofTokens` — the declarations of a file's tokens;
* `declarationTree` — the tree of a source text.
-/

namespace DeclLint

namespace Outline

/-- What kind of body the reader is in. -/
inductive Scope where
  | file
  | type
  | code
deriving DecidableEq, Repr

/-- What was said before the word that introduces a declaration. -/
structure Modifiers where
  isStatic : Bool := false
  isClass : Bool := false
  setterAccessibility : Option String := none
deriving DecidableEq, Repr

/-- Words that may stand before a declaration and change nothing here. -/
def declarationModifiers : List String :=
  ["override", "final", "required", "convenience", "dynamic", "lazy", "weak",
    "unowned", "mutating", "nonmutating", "indirect", "optional", "nonisolated",
    "isolated", "prefix", "postfix", "infix", "distributed"]

/-- Words that say who may use a declaration. -/
def accessLevels : List String :=
  ["private", "fileprivate", "internal", "package", "public", "open"]

/-- Words after which `class` is a modifier and declares no type. -/
def classModifierFollowers : List String :=
  ["func", "var", "let", "subscript", "override", "final", "required",
    "convenience", "dynamic", "static", "nonisolated", "private", "fileprivate",
    "internal", "package", "public", "open"]

/-- Words before `let` or `var` that make it a pattern and no declaration. -/
def bindingContexts : List String := ["if", "guard", "while", "case", "for", "catch"]

/-- Words that continue a header on the next line. -/
def headerContinuers : List String := ["where", "throws", "rethrows", "async"]

/-- Words that introduce a type. -/
def typeIntroducers : List String :=
  ["struct", "class", "enum", "protocol", "extension", "actor"]

/-- Words that introduce a function. -/
def functionIntroducers : List String := ["func", "init", "deinit", "subscript"]

/-- Words that begin an observer of a stored variable. -/
def observerWords : List String := ["willSet", "didSet"]

/-- The tokens from the first that separates no lines. -/
def significant (ts : List Token) : List Token := ts.dropWhile Token.isLineBreak

/-- The first token that separates no lines. -/
def significant? (ts : List Token) : Option Token := (significant ts).head?

/-- Whether the first token that separates no lines is one of some words. -/
def nextWordIsOf (words : List String) (rest : List Token) : Bool :=
  (significant? rest).any (Token.isWordOf words)

/-- A place among the tokens: what was passed, last token first, and what is
still ahead. -/
structure Cursor where
  past : List Token
  rest : List Token
deriving DecidableEq, Repr

/-- Pass the group whose opening mark is the next token.  Round and square
brackets count alike; a group that is never closed takes all that is left. -/
def skipGroup (depth : Nat) (past : List Token) : List Token → Cursor
  | [] => ⟨past, []⟩
  | t :: ts =>
      if t.isMarkOf ['(', '['] then skipGroup (depth + 1) (t :: past) ts
      else if t.isMarkOf [')', ']'] then
        if depth ≤ 1 then ⟨t :: past, ts⟩ else skipGroup (depth - 1) (t :: past) ts
      else skipGroup depth (t :: past) ts

/-- Pass a group in round brackets if one begins right here. -/
def skipArguments (past rest : List Token) : Cursor :=
  if rest.head?.any (Token.isMark '(') then skipGroup 0 past rest else ⟨past, rest⟩

/-- Pass the name of an attribute and an argument list attached to it. -/
def skipAttribute (past : List Token) : List Token → Cursor
  | t :: ts => if t.isWord then skipArguments (t :: past) ts else ⟨past, t :: ts⟩
  | [] => ⟨past, []⟩

/-- Pass `(set)` if it begins right here. -/
def setterSuffix? (past : List Token) : List Token → Option Cursor
  | a :: b :: c :: ts =>
      if a.isMark '(' && b.isWordOf ["set"] && c.isMark ')' then
        some ⟨c :: b :: a :: past, ts⟩
      else none
  | _ => none

/-- Whether a header goes on after a line break: because of how the line
before it ends, or of how the line after it begins. -/
def headerContinues (past rest : List Token) : Bool :=
  let before := match significant past with
    | t :: earlier =>
        t.isMarkOf [':', ',', '&'] || (t.isMark '>' && earlier.head?.any (Token.isMark '-'))
    | [] => false
  let after := match significant? rest with
    | some t => t.isMarkOf ['{', ':', ',', '&', '-'] || t.isWordOf headerContinuers
    | none => false
  before || after

/-- How a header ends: at the brace that opens the body, or before something
that ends the declaration without one. -/
inductive HeaderEnd where
  | body (past : List Token) (brace : Token) (rest : List Token)
  | bare (past rest : List Token)
deriving DecidableEq, Repr

/-- Pass the header of a type or function to its end.  `depth` brackets are
open. -/
def passHeader (depth : Nat) (past : List Token) : List Token → HeaderEnd
  | [] => .bare past []
  | t :: ts =>
      if t.isMark '{' && depth = 0 then .body past t ts
      else if t.isMarkOf ['(', '[', '{'] then passHeader (depth + 1) (t :: past) ts
      else if t.isMarkOf [')', ']'] then passHeader (depth - 1) (t :: past) ts
      else if t.isMark '}' then
        if depth = 0 then .bare past (t :: ts) else passHeader (depth - 1) (t :: past) ts
      else if t.isMark ';' && depth = 0 then .bare past (t :: ts)
      else if t.isLineBreak && depth = 0 && !headerContinues past ts then .bare past (t :: ts)
      else passHeader depth (t :: past) ts

/-- Marks at the end of a line after which a variable goes on. -/
def trailingMarks : List Char := ['=', ',', '.', ':', '+', '-', '*', '/', '&', '|', '<', '(', '[']

/-- Marks at the start of a line before which a variable goes on. -/
def leadingMarks : List Char := ['.', '?', '+', '*', '/', '&', '|', '=']

/-- Whether a variable goes on after a line break.  A `?` at the end of a line
continues it only as an operator, and a brace at the start of a line only as
long as no value was assigned. -/
def variableContinues (assigned : Bool) (past rest : List Token) : Bool :=
  let before := match significant? past with
    | some t => t.lexeme == .query || t.isMarkOf trailingMarks
    | none => false
  let after := match significant? rest with
    | some t => if t.isMark '{' then !assigned else t.isMarkOf leadingMarks
    | none => false
  before || after

/-- How a variable ends: at the brace that opens its accessors, or before
something that is no part of it. -/
inductive VariableEnd where
  | accessors (past : List Token) (brace : Token) (rest : List Token)
  | bare (past rest : List Token)
deriving DecidableEq, Repr

/-- Pass a variable to its end.  `depth` brackets are open; `assigned` says
whether a value was assigned.  A brace after a value opens a closure or the
like, unless an observer follows it. -/
def passVariable (depth : Nat) (assigned : Bool) (past : List Token) :
    List Token → VariableEnd
  | [] => .bare past []
  | t :: ts =>
      if t.isMark '{' && depth = 0 && (!assigned || nextWordIsOf observerWords ts) then
        .accessors past t ts
      else if t.isMarkOf ['(', '[', '{'] then passVariable (depth + 1) assigned (t :: past) ts
      else if t.isMarkOf [')', ']', '}'] then
        if depth = 0 then .bare past (t :: ts)
        else passVariable (depth - 1) assigned (t :: past) ts
      else if t.isMark ';' && depth = 0 then .bare past (t :: ts)
      else if t.lexeme = .assign ∧ depth = 0 then passVariable depth true (t :: past) ts
      else if t.isLineBreak && depth = 0 && !variableContinues assigned past ts then
        .bare past (t :: ts)
      else passVariable depth assigned (t :: past) ts

/-- What an open brace belongs to. -/
inductive Owner where
  /-- No declaration: what is inside counts as standing where the brace does. -/
  | block
  /-- A type or function whose introducing word starts at an offset. -/
  | body (kind : DeclarationKind) (start : Nat)
  /-- A variable whose introducing word starts at an offset. -/
  | accessors (kind : DeclarationKind) (start : Nat) (setter : Option String)
deriving DecidableEq, Repr

/-- An open brace: what it belongs to, its token, and the declarations and the
scope around it, last declaration first. -/
structure Frame where
  owner : Owner
  brace : Token
  scope : Scope
  siblings : List Declaration

/-- The reader between two steps.  The declarations found in the innermost
body come last one first. -/
structure State where
  past : List Token := []
  rest : List Token
  scope : Scope := .file
  frames : List Frame := []
  found : List Declaration := []
  modifiers : Modifiers := {}

/-- The offset just past the last token that separates no lines. -/
def lastStop (past : List Token) : Nat := ((significant? past).map Token.stop).getD 0

/-- The declarations around a brace once the brace is closed. -/
def Frame.close (frame : Frame) (closing : Token) (found : List Declaration) :
    List Declaration :=
  let bodyLength := closing.start - frame.brace.stop
  match frame.owner with
  | .block => found ++ frame.siblings
  | .body kind start =>
      { kind := some kind
        range := some (ByteRange.between start closing.stop)
        bodyLength := some bodyLength
        children := found.reverse } :: frame.siblings
  | .accessors kind start setter =>
      { kind := some kind
        range := some (ByteRange.between start closing.stop)
        bodyLength := some bodyLength
        setterAccessibility := setter } :: frame.siblings

/-- Enter the body that a brace opens. -/
def State.enter (s : State) (owner : Owner) (scope : Scope) (past : List Token)
    (brace : Token) (rest : List Token) : State :=
  { past := brace :: past
    rest := rest
    scope := scope
    frames := ⟨owner, brace, s.scope, s.found⟩ :: s.frames }

/-- Go on at another place, with the modifiers kept. -/
def State.moveTo (s : State) (c : Cursor) : State := { s with past := c.past, rest := c.rest }

/-- Go on at another place, with the modifiers forgotten. -/
def State.settle (s : State) (past rest : List Token) : State :=
  { s with past := past, rest := rest, modifiers := {} }

/-- The scope of a brace that belongs to no declaration. -/
def blockScope : Scope → Scope
  | .type => .type
  | _ => .code

/-- Whether a word that introduces types does so here: neither as a member nor
as a constraint, and with a name after it. -/
def startsType (past rest : List Token) : Bool :=
  !(significant? past).any (Token.isMarkOf ['.', ':', ',']) &&
    (significant? rest).any Token.isWord

/-- Whether a word that introduces functions does so here: not as a member. -/
def startsFunction (past : List Token) : Bool :=
  !(significant? past).any (Token.isMark '.')

/-- Whether a `let` or `var` after some tokens is a pattern. -/
def isBindingPattern (past : List Token) : Bool :=
  match significant? past with
  | some t => t.isWordOf bindingContexts || t.isMarkOf [',', '(']
  | none => false

/-- The kind that a word introducing types declares. -/
def typeKind (word : String) : DeclarationKind :=
  match word with
  | "struct" => .structType
  | "class" => .classType
  | "enum" => .enumType
  | "protocol" => .protocolType
  | "actor" => .actorType
  | _ => .extension

/-- The kind that a word introducing functions declares. -/
def functionKind (word : String) (scope : Scope) (modifiers : Modifiers) : DeclarationKind :=
  match word with
  | "init" => .functionConstructor
  | "deinit" => .functionDestructor
  | "subscript" => .functionSubscript
  | _ =>
      if scope = .type then
        if modifiers.isStatic then .functionMethodStatic
        else if modifiers.isClass then .functionMethodClass
        else .functionMethodInstance
      else .functionFree

/-- The kind that a `let` or `var` declares. -/
def variableKind (scope : Scope) (modifiers : Modifiers) : DeclarationKind :=
  match scope with
  | .file => .varGlobal
  | .code => .varLocal
  | .type =>
      if modifiers.isStatic then .varStatic
      else if modifiers.isClass then .varClass
      else .varInstance

/-- The accessibility of a setter that an access level gives. -/
def setterOfAccess (access : String) : String := "source.lang.swift.accessibility." ++ access

/-- Read a type declaration.  One without a body, such as an import of a type,
declares nothing here. -/
def State.readType (s : State) (word : String) (t : Token) (rest : List Token) : State :=
  match passHeader 0 (t :: s.past) rest with
  | .body past brace rest => s.enter (.body (typeKind word) t.start) .type past brace rest
  | .bare past rest => s.settle past rest

/-- Read a function. -/
def State.readFunction (s : State) (word : String) (t : Token) (rest : List Token) : State :=
  let kind := functionKind word s.scope s.modifiers
  match passHeader 0 (t :: s.past) rest with
  | .body past brace rest => s.enter (.body kind t.start) .code past brace rest
  | .bare past rest =>
      { s.settle past rest with
        found :=
          { kind := some kind
            range := some (ByteRange.between t.start (lastStop past)) } :: s.found }

/-- Read a variable. -/
def State.readVariable (s : State) (t : Token) (rest : List Token) : State :=
  let kind := variableKind s.scope s.modifiers
  let setter := s.modifiers.setterAccessibility
  match passVariable 0 false (t :: s.past) rest with
  | .accessors past brace rest => s.enter (.accessors kind t.start setter) .code past brace rest
  | .bare past rest =>
      { s.settle past rest with
        found :=
          { kind := some kind
            range := some (ByteRange.between t.start (lastStop past))
            setterAccessibility := setter } :: s.found }

/-- Read a word and what belongs to it. -/
def State.readWord (s : State) (word : String) (t : Token) (rest : List Token) : State :=
  let past := t :: s.past
  if word = "static" then
    { s.moveTo ⟨past, rest⟩ with modifiers := { s.modifiers with isStatic := true } }
  else if word = "class" ∧ nextWordIsOf classModifierFollowers rest then
    { s.moveTo ⟨past, rest⟩ with modifiers := { s.modifiers with isClass := true } }
  else if accessLevels.contains word then
    match setterSuffix? past rest with
    | some after =>
        { s.moveTo after with
          modifiers := { s.modifiers with setterAccessibility := some (setterOfAccess word) } }
    | none => s.moveTo ⟨past, rest⟩
  else if typeIntroducers.contains word ∧ startsType s.past rest then s.readType word t rest
  else if functionIntroducers.contains word ∧ startsFunction s.past then
    s.readFunction word t rest
  else if word = "let" ∨ word = "var" then
    if isBindingPattern s.past then s.moveTo ⟨past, rest⟩ else s.readVariable t rest
  else if declarationModifiers.contains word then s.moveTo (skipArguments past rest)
  else s.settle past rest

/-- One step: read the next token and what belongs to it. -/
def step (s : State) (t : Token) (rest : List Token) : Except ParseError State :=
  let past := t :: s.past
  match t.lexeme with
  | .word text => .ok (s.readWord text t rest)
  | .literal => .ok (s.settle past rest)
  | .lineBreak => .ok (s.moveTo ⟨past, rest⟩)
  | .assign | .query => .ok (s.moveTo ⟨past, rest⟩)
  | .mark c =>
      if c = '}' then
        match s.frames with
        | [] => .error (.unbalanced '}' t.start)
        | frame :: frames =>
            .ok { past := past, rest := rest, scope := frame.scope, frames := frames,
                  found := frame.close t s.found }
      else if c = '{' then .ok (s.enter .block (blockScope s.scope) s.past t rest)
      else if c = ';' then .ok (s.settle past rest)
      else if c = '@' then .ok (s.moveTo (skipAttribute past rest))
      else .ok (s.moveTo ⟨past, rest⟩)

theorem skipGroup_rest_le (depth : Nat) (past rest : List Token) :
    (skipGroup depth past rest).rest.length ≤ rest.length := by
  fun_induction skipGroup depth past rest <;> grind

theorem skipArguments_rest_le (past rest : List Token) :
    (skipArguments past rest).rest.length ≤ rest.length := by
  unfold skipArguments
  split
  · exact skipGroup_rest_le 0 past rest
  · exact Nat.le_refl _

/-- An attribute leaves no more tokens than there were. -/
theorem skipAttribute_rest_le (past rest : List Token) :
    (skipAttribute past rest).rest.length ≤ rest.length := by
  unfold skipAttribute
  split
  · split
    · exact Nat.le_succ_of_le (skipArguments_rest_le _ _)
    · exact Nat.le_refl _
  · exact Nat.le_refl _

theorem setterSuffix?_rest_le {past rest : List Token} {c : Cursor}
    (h : setterSuffix? past rest = some c) : c.rest.length ≤ rest.length := by
  unfold setterSuffix? at h
  grind

/-- What a header leaves unread. -/
def HeaderEnd.rest : HeaderEnd → List Token
  | body _ _ rest => rest
  | bare _ rest => rest

/-- What a variable leaves unread. -/
def VariableEnd.rest : VariableEnd → List Token
  | accessors _ _ rest => rest
  | bare _ rest => rest

theorem passHeader_rest_le (depth : Nat) (past rest : List Token) :
    (passHeader depth past rest).rest.length ≤ rest.length := by
  fun_induction passHeader depth past rest <;> simp_all [HeaderEnd.rest] <;> omega

theorem passVariable_rest_le (depth : Nat) (assigned : Bool) (past rest : List Token) :
    (passVariable depth assigned past rest).rest.length ≤ rest.length := by
  fun_induction passVariable depth assigned past rest <;>
    simp_all [VariableEnd.rest] <;> omega

theorem State.readType_rest_le (s : State) (word : String) (t : Token) (rest : List Token) :
    (s.readType word t rest).rest.length ≤ rest.length := by
  have h := passHeader_rest_le 0 (t :: s.past) rest
  unfold State.readType
  split <;> simp_all [HeaderEnd.rest, State.enter, State.settle]

theorem State.readFunction_rest_le (s : State) (word : String) (t : Token)
    (rest : List Token) : (s.readFunction word t rest).rest.length ≤ rest.length := by
  have h := passHeader_rest_le 0 (t :: s.past) rest
  unfold State.readFunction
  dsimp only
  split <;> simp_all [HeaderEnd.rest, State.enter, State.settle]

theorem State.readVariable_rest_le (s : State) (t : Token) (rest : List Token) :
    (s.readVariable t rest).rest.length ≤ rest.length := by
  have h := passVariable_rest_le 0 false (t :: s.past) rest
  unfold State.readVariable
  dsimp only
  split <;> simp_all [VariableEnd.rest, State.enter, State.settle]

/-- A word is passed with tokens that follow it, so no more are left than there were. -/
theorem State.readWord_rest_le (s : State) (word : String) (t : Token)
    (rest : List Token) : (s.readWord word t rest).rest.length ≤ rest.length := by
  unfold State.readWord
  dsimp only
  split
  · exact Nat.le_refl _
  split
  · exact Nat.le_refl _
  split
  · split
    next after h => exact setterSuffix?_rest_le h
    next => exact Nat.le_refl _
  split
  · exact s.readType_rest_le word t rest
  split
  · exact s.readFunction_rest_le word t rest
  split
  · split
    · exact Nat.le_refl _
    · exact s.readVariable_rest_le t rest
  split
  · exact skipArguments_rest_le _ rest
  · exact Nat.le_refl _

/-- **Every step advances.**  A step leaves at most what followed its token. -/
theorem step_rest_le {s next : State} {t : Token} {rest : List Token}
    (h : step s t rest = .ok next) : next.rest.length ≤ rest.length := by
  unfold step at h
  dsimp only at h
  split at h
  · obtain rfl : _ = next := by simpa using h
    exact s.readWord_rest_le _ t rest
  · obtain rfl : _ = next := by simpa using h
    exact Nat.le_refl _
  · obtain rfl : _ = next := by simpa using h
    exact Nat.le_refl _
  · obtain rfl : _ = next := by simpa using h
    exact Nat.le_refl _
  · obtain rfl : _ = next := by simpa using h
    exact Nat.le_refl _
  · split at h
    · split at h
      · simp at h
      · obtain rfl : _ = next := by simpa using h
        exact Nat.le_refl _
    split at h
    · obtain rfl : _ = next := by simpa using h
      exact Nat.le_refl _
    split at h
    · obtain rfl : _ = next := by simpa using h
      exact Nat.le_refl _
    split at h
    · obtain rfl : _ = next := by simpa using h
      exact skipAttribute_rest_le _ rest
    · obtain rfl : _ = next := by simpa using h
      exact Nat.le_refl _

/-- Read to the end.  A brace still open there has no partner. -/
def run (s : State) : Except ParseError (List Declaration) :=
  match _hrest : s.rest with
  | [] =>
      match s.frames with
      | [] => .ok s.found.reverse
      | frame :: _ => .error (.unbalanced '{' frame.brace.start)
  | t :: rest =>
      match _hstep : step s t rest with
      | .error e => .error e
      | .ok next => run next
termination_by s.rest.length
decreasing_by
  have := step_rest_le _hstep
  simp [_hrest]
  omega

/-- The declarations that some tokens hold outside every other. -/
def ofTokens (tokens : List Token) : Except ParseError (List Declaration) :=
  run { rest := tokens }

end Outline

/-- The declaration tree of a source text.  Its root is the whole file. -/
def declarationTree (source : String) : Except ParseError Declaration := do
  let pieces ← cut source.toList
  let children ← Outline.ofTokens (Token.ofPieces pieces)
  pure { range := some ⟨0, source.utf8ByteSize⟩, children := children }

end DeclLint
