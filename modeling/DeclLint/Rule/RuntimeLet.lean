import DeclLint.Rule.Basic
import DeclLint.Text.WordCharacter

/-!
# The rule against runtime `let` properties

A stored `let` of a struct or enum without initializer gets its value at run
time, once per instance.  Such a property should be a `var`, or have a value
that is known beforehand.  The rule reports the whole declaration and replaces
its `let` only.

* `introducerFrom?_eq_some` — the introducer found is a whole word of the text, at
  the reported offset;
* `RuntimeLet.fix_replacement` — the only text ever put in is `var`, for `let`.
-/

namespace DeclLint

/-- Words that introduce a variable. -/
def introducerWords : List (List Char) := [['l', 'e', 't'], ['v', 'a', 'r']]

/-- The introducing word that some characters begin with.  No word character
may come before it or after it. -/
def leadingIntroducer? (before : Option Char) (cs : List Char) : Option (List Char) :=
  introducerWords.find? fun word =>
    word.isPrefixOf cs && !before.any isWordCharacter &&
      !(cs.drop word.length).head?.any isWordCharacter

/-- The first introducing word among the characters at a byte offset, with its
own offset.  `before` is the character before them. -/
def introducerFrom? (offset : Nat) (before : Option Char) :
    List Char → Option (Nat × List Char)
  | [] => none
  | c :: cs =>
      match leadingIntroducer? before (c :: cs) with
      | some word => some (offset, word)
      | none => introducerFrom? (offset + c.utf8Size) (some c) cs

/-- The first introducing word of a text, with its byte offset. -/
def introducer? (cs : List Char) : Option (Nat × List Char) := introducerFrom? 0 none cs

/-- The word that leads a text is one of those looked for, and the text begins with it. -/
theorem leadingIntroducer?_eq_some {before : Option Char} {cs word : List Char}
    (h : leadingIntroducer? before cs = some word) :
    word ∈ introducerWords ∧ ∃ rest, cs = word ++ rest := by
  have hmem := List.mem_of_find?_eq_some h
  have hstarts := List.find?_some h
  simp only [Bool.and_eq_true] at hstarts
  obtain ⟨rest, hrest⟩ := List.isPrefixOf_iff_prefix.mp hstarts.1.1
  exact ⟨hmem, rest, hrest.symm⟩

/-- The introducer found is a word of the text, at the reported offset. -/
theorem introducerFrom?_eq_some {offset found : Nat} {before : Option Char}
    {cs word : List Char} (h : introducerFrom? offset before cs = some (found, word)) :
    word ∈ introducerWords ∧ ∃ front back, cs = front ++ word ++ back ∧
      found = offset + utf8Size front := by
  fun_induction introducerFrom? offset before cs with
  | case1 => simp at h
  | case2 offset before c cs found' hlead =>
      obtain ⟨rfl, rfl⟩ : offset = found ∧ found' = word := by simpa using h
      obtain ⟨hmem, rest, hrest⟩ := leadingIntroducer?_eq_some hlead
      exact ⟨hmem, [], rest, by simpa using hrest, by simp⟩
  | case3 offset before c cs hlead ih =>
      obtain ⟨hmem, front, back, hcs, hfound⟩ := ih h
      exact ⟨hmem, c :: front, back, by simp [hcs], by simp [hfound, Nat.add_assoc]⟩

/-- The byte offset of the `let` that introduces a declaration, if `let` is
what introduces it. -/
def letOffset? (text : String) : Option Nat :=
  match introducer? text.toList with
  | some (offset, word) => if word = ['l', 'e', 't'] then some offset else none
  | none => none

namespace RuntimeLet

/-- What is known of the rule beforehand. -/
def description : RuleDescription where
  identifier := "discouraged_struct_runtime_let"
  name := "Discouraged Struct Runtime Let"
  description :=
    "Struct `let` property values should be known at compile time, and constant for all copies."
  kind := .idiomatic
  optIn := true
  nonTriggeringExamples := [
    "struct Foo \x7b\n    let bar: Int = 5\n\x7d",
    "struct Foo \x7b\n    var bar: Int\n\x7d",
    "struct Foo \x7b let bar: Int = 5 \x7d",
    "class Foo \x7b\n    let bar: Int\n\x7d",
    "struct Foo \x7b\n    private(set) var bar: Int\n\x7d",
    "struct Foo \x7b\n    func run() \x7b\n        let bar: Int\n    \x7d\n\x7d"]
  triggeringExamples := [
    "struct Foo \x7b\n    ↓let baz: Int\n\x7d",
    "struct Foo \x7b\n    ↓let bar: Int\n    var baz: String\n    ↓let qux: [String]\n\x7d",
    "class Outer \x7b\n    struct Inner \x7b\n        ↓let value: Int\n    \x7d\n\x7d",
    "struct Foo \x7b\n    @Clamped ↓let bar: Double\n\x7d",
    "struct Foo \x7b\n    ↓let bar: Int?\n    ↓let baz: Int\n\x7d",
    "struct Foo \x7b\n    ↓let bar: Int?\n    let baz: Int = 5\n\x7d",
    "struct Foo \x7b\n    ↓let bar: String?\n    var baz: Int \x7b 1 \x7d\n\x7d"]
  corrections := [
    ("struct Foo \x7b\n    let bar: Int\n\x7d", "struct Foo \x7b\n    var bar: Int\n\x7d"),
    ("struct Foo \x7b\n    let bar: Int\n    let baz: Int = 1\n    let qux: String\n\x7d",
      "struct Foo \x7b\n    var bar: Int\n    let baz: Int = 1\n    var qux: String\n\x7d"),
    ("struct Foo \x7b\n    let bar: Int?\n    let baz: Int\n\x7d",
      "struct Foo \x7b\n    var bar: Int?\n    var baz: Int\n\x7d")]

/-- Whether a declaration is a stored property that may get its value at run
time: an instance variable directly in a struct or enum, with neither a setter
accessibility nor accessors. -/
def isCandidate (kind : DeclarationKind) (d : Declaration) (container : Option Declaration) :
    Bool :=
  kind == .varInstance && (container.bind Declaration.kind).any DeclarationKind.isValueType &&
    d.setterAccessibility.isNone && d.bodyLength.isNone

/-- Whether the text of a declaration is introduced by `let` and gives no value.
Not every structure producer tells initializers, so the text decides. -/
def isRuntimeLet (text : String) : Bool :=
  (letOffset? text).isSome && !text.contains '='

/-- The whole declaration, if it breaks the rule.  A span that is none of the
text is noted. -/
def detect (file : SourceFile) (kind : DeclarationKind) (d : Declaration)
    (container : Option Declaration) : Logged (List ByteRange) :=
  if isCandidate kind d container then
    match d.range with
    | none => pure []
    | some range =>
        match file.text.sliceBytes range with
        | .ok text => pure (if isRuntimeLet text then [range] else [])
        | .error e => do
            Logged.note .warning
              s!"{file.displayPath}: skipping declaration at byte {range.location}: {e.message}"
            pure []
  else pure []

/-- The `let` that introduces a reported declaration. -/
def letRange (file : SourceFile) (detected : ByteRange) : Option ByteRange :=
  match file.text.sliceBytes detected with
  | .ok text => (letOffset? text).map fun offset => ⟨detected.location + offset, 3⟩
  | .error _ => none

/-- `var`, in place of `let` only. -/
def varForLet (file : SourceFile) (range : ByteRange) : Option String :=
  match file.text.sliceBytes range with
  | .ok text => if text = "let" then some "var" else none
  | .error _ => none

/-- The fix puts `var` in place of `let`. -/
def fix : Fix where
  range := letRange
  replacement := varForLet

/-- The only text ever put in is `var`, in place of `let`. -/
theorem fix_replacement {file : SourceFile} {range : ByteRange} {text : String}
    (h : fix.replacement file range = some text) :
    text = "var" ∧ file.text.sliceBytes range = .ok "let" := by
  simp only [fix, varForLet] at h
  split at h
  next slice hslice =>
    split at h
    next heq => exact ⟨by simpa using h.symm, by rw [hslice, heq]⟩
    next => simp at h
  next => simp at h

/-- The rule against runtime `let` properties. -/
def rule : Rule where
  description := description
  detect := detect
  message := fun _ _ => description.description
  fix := some fix

end RuntimeLet

end DeclLint
