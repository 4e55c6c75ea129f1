import DeclLint.Proofs.Checked.Tokenizer
import DeclLint.Source.Outline

/-!
# A scanner of tokens by index

The declarations of a text are found by a scanner that holds an index into a list of tokens,
looks back and ahead from there, and calls itself for what is between two braces.  Every
access to the list and to the bytes of the text is checked here, every cut, every difference,
and that each round and each call inside gets on; where the scanner has no need to look, it
makes no check.

* `Scanner.parseItem` — one round, given the call for what is inside of a brace;
* `Scanner.parseItems` — the rounds of one body;
* `Scanner.parse` — the declaration tree of a source text.
-/

namespace DeclLint

namespace Scanner

open Checked

namespace RawToken

/-- Whether a token separates lines. -/
def isNewline (t : RawToken) : Bool := t.kind == .newline

/-- Whether a token is one of some marks. -/
def isPunctOf (t : RawToken) (marks : List Char) : Bool :=
  match t.kind with
  | .punct b => (marks.map Char.toUInt8).contains b
  | _ => false

end RawToken

section

variable (source : String) (tokens : List RawToken)

/-- The text of the token at an index. -/
def text (index : Nat) : Checked ParseError String := do
  let token ← get tokens index
  slice (Text.ofString source) token.start token.stop

/-- Whether there is a token at an index, and it is one of some marks. -/
def isPunctOf (marks : List Char) (index : Nat) : Bool :=
  tokens[index]?.any (RawToken.isPunctOf · marks)

/-- Whether there is a token at an index, and it is a word. -/
def isWord (index : Nat) : Bool := tokens[index]?.any (·.kind == .word)

/-- The first index from `index` on whose token separates no lines. -/
def nextSignificant (index : Nat) : Checked ParseError (Option Nat) :=
  if _h : index < tokens.length then do
    let token ← get tokens index
    if token.isNewline then nextSignificant (index + 1) else pure (some index)
  else pure none
termination_by tokens.length - index

/-- The last index before `index` whose token separates no lines. -/
def prevSignificant : Nat → Checked ParseError (Option Nat)
  | 0 => pure none
  | index + 1 => do
      let token ← get tokens index
      if token.isNewline then prevSignificant index else pure (some index)

/-- Whether the next word is one of some words. -/
def nextWordIs (index : Nat) (words : List String) : Checked ParseError Bool := do
  match ← nextSignificant tokens index with
  | some i => both (isWord tokens i) do
      let word ← text source tokens i
      pure (words.contains word)
  | none => pure false

/-- The index just past the group opened at `index`. -/
def skipGroup (depth index : Nat) : Checked ParseError Nat :=
  if _h : index < tokens.length then do
    let token ← get tokens index
    if token.isPunctOf ['(', '['] then skipGroup (depth + 1) (index + 1)
    else if token.isPunctOf [')', ']'] then
      if depth - 1 = 0 then pure (index + 1) else skipGroup (depth - 1) (index + 1)
    else skipGroup depth (index + 1)
  else pure tokens.length
termination_by tokens.length - index

/-- The index past a group in round brackets, if one begins at `index`. -/
def skipArguments (index : Nat) : Checked ParseError Nat :=
  if isPunctOf tokens ['('] index then skipGroup tokens 0 index else pure index

/-- The index past the attribute whose mark is at `index`. -/
def skipAttribute (index : Nat) : Checked ParseError Nat :=
  if isWord tokens (index + 1) then skipArguments tokens (index + 2) else pure (index + 1)

/-- The index past a `(set)`, if one begins at `index`. -/
def skipSetterSuffix (index : Nat) : Checked ParseError (Option Nat) := do
  let isSetter ← both (isPunctOf tokens ['('] index && isWord tokens (index + 1)) do
    let word ← text source tokens (index + 1)
    pure (word == "set" && isPunctOf tokens [')'] (index + 2))
  pure (if isSetter then some (index + 3) else none)

/-- Whether a word at `index` that introduces types does so. -/
def startsType (index : Nat) : Checked ParseError Bool := do
  let before ← prevSignificant tokens index
  let after ← nextSignificant tokens (index + 1)
  pure (!before.any (isPunctOf tokens ['.', ':', ',']) && after.any (isWord tokens))

/-- Whether a word at `index` that introduces functions does so. -/
def startsFunction (index : Nat) : Checked ParseError Bool := do
  let before ← prevSignificant tokens index
  pure !before.any (isPunctOf tokens ['.'])

/-- Whether a `let` or `var` at `index` is a pattern. -/
def isBindingPattern (index : Nat) : Checked ParseError Bool := do
  match ← prevSignificant tokens index with
  | some p =>
      if isWord tokens p then do
        let word ← text source tokens p
        pure (Outline.bindingContexts.contains word)
      else pure (isPunctOf tokens [',', '('] p)
  | none => pure false

/-- Whether an arrow ends at `index`. -/
def isArrowEnd (index : Nat) : Checked ParseError Bool :=
  both (isPunctOf tokens ['>'] index && decide (0 < index)) do
    let before ← sub index 1
    pure (isPunctOf tokens ['-'] before)

/-- Whether a header goes on because of the token that the line before ends with. -/
def headerEndsOpen : Option Nat → Checked ParseError Bool
  | some p => if isPunctOf tokens [':', ',', '&'] p then pure true else isArrowEnd tokens p
  | none => pure false

/-- Whether a header goes on because of the token that the line after begins with. -/
def headerBeginsOpen : Option Nat → Checked ParseError Bool
  | some n =>
      if isPunctOf tokens ['{', ':', ',', '&', '-'] n then pure true
      else both (isWord tokens n) do
        let word ← text source tokens n
        pure (Outline.headerContinuers.contains word)
  | none => pure false

/-- Whether a header goes on after the line break at `newline`. -/
def headerContinues (newline : Nat) : Checked ParseError Bool := do
  let last ← prevSignificant tokens newline
  let before ← headerEndsOpen tokens last
  let next ← nextSignificant tokens newline
  let after ← headerBeginsOpen source tokens next
  pure (before || after)

/-- The index of the brace that opens a body, or else the index where the header ends.  `depth`
brackets are open. -/
def findBodyOpen (depth index : Nat) : Checked ParseError (Except Nat Nat) :=
  if _h : index < tokens.length then do
    let token ← get tokens index
    if token.isPunctOf ['{'] && decide (depth = 0) then pure (.ok index)
    else if token.isPunctOf ['(', '[', '{'] then findBodyOpen (depth + 1) (index + 1)
    else if token.isPunctOf [')', ']'] then findBodyOpen (depth - 1) (index + 1)
    else if token.isPunctOf ['}'] then
      if depth = 0 then pure (.error index)
      else do
        let depth ← sub depth 1
        findBodyOpen depth (index + 1)
    else if token.isPunctOf [';'] && decide (depth = 0) then pure (.error index)
    else do
      let stops ← both (token.isNewline && decide (depth = 0)) do
        let continues ← headerContinues source tokens index
        pure !continues
      if stops then pure (.error index) else findBodyOpen depth (index + 1)
  else pure (.error tokens.length)
termination_by tokens.length - index

/-- The byte behind the last token before `index` that separates no lines, not before
`floor`. -/
def endBefore (index floor : Nat) : Checked ParseError Nat := do
  let first ← get tokens floor
  match ← prevSignificant tokens index with
  | some p =>
      if floor ≤ p then do
        let last ← get tokens p
        pure last.stop
      else pure first.stop
  | none => pure first.stop

/-- The byte before an offset, if there is one. -/
def byteBefore (bytes : List UInt8) (offset : Nat) : Checked ParseError (Option UInt8) :=
  if offset = 0 then pure none
  else do
    let b ← get bytes (offset - 1)
    pure (some b)

/-- Whether the `=` at `index` belongs to no comparison. -/
def isAssignment (index : Nat) : Checked ParseError Bool := do
  let token ← get tokens index
  let bytes := utf8Bytes source.toList
  let before ← byteBefore bytes token.start
  let after := bytes[token.start + 1]?
  pure (!before.any (Token.comparisonStarts.map Char.toUInt8).contains &&
    !(after == some '='.toUInt8))

/-- Whether the `?` at `index` is no optional mark. -/
def isTernaryMark (index : Nat) : Checked ParseError Bool := do
  let token ← get tokens index
  let before ← byteBefore (utf8Bytes source.toList) token.start
  pure (before.any ([' ', '\t', '?'].map Char.toUInt8).contains)

/-- Whether a variable goes on because of the token that the line before ends with. -/
def variableEndsOpen : Option Nat → Checked ParseError Bool
  | some p => do
      let token ← get tokens p
      if token.isPunctOf ['?'] then isTernaryMark source tokens p
      else pure (token.isPunctOf Outline.trailingMarks)
  | none => pure false

/-- Whether a variable goes on because of the token that the line after begins with. -/
def variableBeginsOpen (assigned : Bool) : Option Nat → Checked ParseError Bool
  | some n => do
      let token ← get tokens n
      pure (if token.isPunctOf ['{'] then !assigned else token.isPunctOf Outline.leadingMarks)
  | none => pure false

/-- Whether a variable goes on after the line break at `newline`. -/
def variableContinues (newline : Nat) (assigned : Bool) : Checked ParseError Bool := do
  let last ← prevSignificant tokens newline
  let before ← variableEndsOpen source tokens last
  let next ← nextSignificant tokens newline
  let after ← variableBeginsOpen tokens assigned next
  pure (before || after)

/-- The call for what is inside of a brace: the declarations there, and the index behind the
closing brace. -/
abbrev Nested : Type :=
  Outline.Scope → RawToken → Nat → Checked ParseError (List Declaration × Nat)

/-- The declarations of the body whose brace is at `opened`, its closing brace, and the index
behind it. -/
def parseBody (nested : Nested) (opened : Nat) (scope : Outline.Scope) :
    Checked ParseError (List Declaration × RawToken × Nat) := do
  let brace ← get tokens opened
  let (children, pos) ← nested scope brace (opened + 1)
  let last ← sub pos 1
  let close ← get tokens last
  pure (children, close, pos)

/-- A type with a body, and the index behind it.  One without is no declaration. -/
def parseType (nested : Nested) (keyword : Nat) :
    Checked ParseError (Option Declaration × Nat) := do
  let word ← text source tokens keyword
  match ← findBodyOpen source tokens 0 (keyword + 1) with
  | .error stop => pure (none, stop)
  | .ok opened => do
      let first ← get tokens keyword
      let brace ← get tokens opened
      let (children, close, pos) ← parseBody tokens nested opened .type
      let length ← sub close.stop first.start
      let bodyLength ← sub close.start brace.stop
      pure (some
        { kind := some (Outline.typeKind word)
          range := some ⟨first.start, length⟩
          bodyLength := some bodyLength
          children := children }, pos)

/-- A function, and the index behind it. -/
def parseFunction (nested : Nested) (keyword : Nat) (scope : Outline.Scope)
    (modifiers : Outline.Modifiers) : Checked ParseError (Declaration × Nat) := do
  let word ← text source tokens keyword
  let kind := Outline.functionKind word scope modifiers
  let first ← get tokens keyword
  match ← findBodyOpen source tokens 0 (keyword + 1) with
  | .error stop => do
      let behind ← endBefore tokens stop keyword
      let length ← sub behind first.start
      pure ({ kind := some kind, range := some ⟨first.start, length⟩ }, stop)
  | .ok opened => do
      let brace ← get tokens opened
      let (children, close, pos) ← parseBody tokens nested opened .code
      let length ← sub close.stop first.start
      let bodyLength ← sub close.start brace.stop
      pure ({
        kind := some kind
        range := some ⟨first.start, length⟩
        bodyLength := some bodyLength
        children := children }, pos)

/-- Go on in a variable that ends at `stop` so far: where it ends, the length of its accessors,
and the index behind it. -/
def variableLoop (nested : Nested) (depth : Nat) (assigned : Bool) (stop index : Nat) :
    Checked ParseError (Nat × Option Nat × Nat) :=
  if _h : index < tokens.length then do
    let token ← get tokens index
    let behind := if token.isNewline then stop else token.stop
    let accessors ← both (token.isPunctOf ['{'] && decide (depth = 0)) <|
      if assigned then nextWordIs source tokens (index + 1) Outline.observerWords else pure true
    if accessors then do
      let (_, close, pos) ← parseBody tokens nested index .code
      let bodyLength ← sub close.start token.stop
      pure (close.stop, some bodyLength, pos)
    else if token.isPunctOf ['(', '[', '{'] then
      variableLoop nested (depth + 1) assigned behind (index + 1)
    else if token.isPunctOf [')', ']', '}'] then
      if depth = 0 then pure (stop, none, index)
      else do
        let depth ← sub depth 1
        variableLoop nested depth assigned behind (index + 1)
    else if token.isPunctOf [';'] && decide (depth = 0) then pure (stop, none, index)
    else do
      let assigns ← both (token.isPunctOf ['='] && decide (depth = 0))
        (isAssignment source tokens index)
      if assigns then variableLoop nested depth true behind (index + 1)
      else do
        let stops ← both (token.isNewline && decide (depth = 0)) do
          let continues ← variableContinues source tokens index assigned
          pure !continues
        if stops then pure (stop, none, index)
        else variableLoop nested depth assigned behind (index + 1)
  else pure (stop, none, index)
termination_by tokens.length - index

/-- A variable, and the index behind it. -/
def parseVariable (nested : Nested) (keyword : Nat) (scope : Outline.Scope)
    (modifiers : Outline.Modifiers) : Checked ParseError (Declaration × Nat) := do
  let first ← get tokens keyword
  let (stop, bodyLength, pos) ←
    variableLoop source tokens nested 0 false first.stop (keyword + 1)
  let length ← sub stop first.start
  pure ({
    kind := some (Outline.variableKind scope modifiers)
    range := some ⟨first.start, length⟩
    bodyLength := bodyLength
    setterAccessibility := modifiers.setterAccessibility }, pos)

/-- How a round ends: behind the brace that closes the body, or with the modifiers, the
declarations and the index for the next round. -/
inductive Round where
  | closed (pos : Nat)
  | more (modifiers : Outline.Modifiers) (items : List Declaration) (pos : Nat)
deriving Repr

/-- A round at a word. -/
def parseWord (nested : Nested) (scope : Outline.Scope) (modifiers : Outline.Modifiers)
    (items : List Declaration) (pos : Nat) : Checked ParseError Round := do
  let word ← text source tokens pos
  if word = "static" then pure (.more { modifiers with isStatic := true } items (pos + 1))
  else do
    let isClass ← both (word == "class")
      (nextWordIs source tokens (pos + 1) Outline.classModifierFollowers)
    if isClass then pure (.more { modifiers with isClass := true } items (pos + 1))
    else if Outline.accessLevels.contains word then do
      match ← skipSetterSuffix source tokens (pos + 1) with
      | some after =>
          let setter := Outline.setterOfAccess word
          pure (.more { modifiers with setterAccessibility := some setter } items after)
      | none => pure (.more modifiers items (pos + 1))
    else do
      let isType ← both (Outline.typeIntroducers.contains word) (startsType tokens pos)
      if isType then do
        let (found, after) ← parseType source tokens nested pos
        pure (.more {} (items ++ found.toList) after)
      else do
        let isFunction ← both (Outline.functionIntroducers.contains word)
          (startsFunction tokens pos)
        if isFunction then do
          let (found, after) ← parseFunction source tokens nested pos scope modifiers
          pure (.more {} (items ++ [found]) after)
        else if word = "let" ∨ word = "var" then do
          let isPattern ← isBindingPattern source tokens pos
          if isPattern then pure (.more modifiers items (pos + 1))
          else do
            let (found, after) ← parseVariable source tokens nested pos scope modifiers
            pure (.more {} (items ++ [found]) after)
        else if Outline.declarationModifiers.contains word then do
          let after ← skipArguments tokens (pos + 1)
          pure (.more modifiers items after)
        else pure (.more {} items (pos + 1))

/-- One round in the body that a brace opened, or outside of all braces. -/
def parseItem (nested : Nested) (scope : Outline.Scope) (opened? : Option RawToken)
    (modifiers : Outline.Modifiers) (items : List Declaration) (pos : Nat) :
    Checked ParseError Round := do
  let token ← get tokens pos
  match token.kind with
  | .newline => pure (.more modifiers items (pos + 1))
  | .literal => pure (.more {} items (pos + 1))
  | .word => parseWord source tokens nested scope modifiers items pos
  | .punct b =>
      if b == '}'.toUInt8 then
        if opened?.isNone then refuse (.unbalanced '}' token.start)
        else pure (.closed (pos + 1))
      else if b == '{'.toUInt8 then do
        let (inside, after) ← nested (Outline.blockScope scope) token (pos + 1)
        pure (.more {} (items ++ inside) after)
      else if b == ';'.toUInt8 then pure (.more {} items (pos + 1))
      else if b == '@'.toUInt8 then do
        let after ← skipAttribute tokens pos
        pure (.more modifiers items after)
      else pure (.more modifiers items (pos + 1))

/-- The declarations from `pos` on up to the brace that closes the body, and the index
behind it. -/
def parseItems (scope : Outline.Scope) (opened? : Option RawToken)
    (modifiers : Outline.Modifiers) (items : List Declaration) (pos : Nat) :
    Checked ParseError (List Declaration × Nat) :=
  if _h : pos < tokens.length then do
    let round ← parseItem source tokens (fun inside brace start =>
      if _hstart : pos < start then parseItems inside (some brace) {} [] start else stuck pos)
      scope opened? modifiers items pos
    match round with
    | .closed after => pure (items, after)
    | .more modifiers items after =>
        if _hafter : pos < after then parseItems scope opened? modifiers items after
        else stuck pos
  else
    match opened? with
    | some brace => refuse (.unbalanced '{' brace.start)
    | none => pure (items, pos)
termination_by tokens.length - pos

end

/-- What the scanner ends with: its tokens, the index where it is, and the tree. -/
structure Parse where
  tokens : List RawToken
  pos : Nat
  root : Declaration

/-- The declaration tree of a source text. -/
def parse (source : String) : Checked ParseError Parse := do
  let (tokens, _) ← tokenize source
  let (items, pos) ← parseItems source tokens .file none {} [] 0
  pure ⟨tokens, pos, { range := some ⟨0, source.utf8ByteSize⟩, children := items }⟩

end Scanner

end DeclLint
