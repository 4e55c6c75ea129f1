import DeclLint.Source.Token
import DeclLint.Log
import DeclLint.Text.Blank

/-!
# Directives in comments

A `//` comment can silence rules:

* `// structlint:disable RULES` — from the next line on;
* `// structlint:enable RULES` — no longer, from the next line on;
* `// structlint:disable:next RULES`, `:this`, `:previous` — on one line only.

Rules are separated by commas or blanks, and `all` names every rule.  The first
directive of a comment counts.  A directive with a suffix silences its line
whatever its verb is.

* `Directive.ofComment?` — the directive of a comment;
* `Silencing.isDisabled` — whether a rule is silent on a line;
* `mem_ruleNames` — no rule name is empty or holds a separator.
-/

namespace DeclLint

/-- The rules a directive speaks of. -/
inductive RuleSelection where
  | all
  | named (ids : List String)
deriving DecidableEq, Repr

/-- Cut some characters at every separator. -/
def splitAtSeparators (separates : Char → Bool) (cs : List Char) : List (List Char) :=
  cs.foldr
    (fun c parts =>
      if separates c then [] :: parts
      else match parts with
        | [] => [[c]]
        | part :: others => (c :: part) :: others)
    [[]]

/-- Whether a character separates rule names. -/
def separatesRules (c : Char) : Bool := c == ',' || isBlank c

/-- The rule names in a list of rules. -/
def ruleNames (cs : List Char) : List (List Char) :=
  (splitAtSeparators separatesRules cs).filter fun name => !name.isEmpty

/-- No part between separators holds one. -/
theorem mem_splitAtSeparators {separates : Char → Bool} {cs part : List Char} {c : Char}
    (hpart : part ∈ splitAtSeparators separates cs) (hc : c ∈ part) :
    separates c = false := by
  induction cs generalizing part with
  | nil =>
      obtain rfl : part = [] := by simpa [splitAtSeparators] using hpart
      simp at hc
  | cons d cs ih =>
      simp only [splitAtSeparators, List.foldr_cons] at hpart
      split at hpart
      next =>
        rcases List.mem_cons.mp hpart with rfl | hpart
        · simp at hc
        · exact ih hpart hc
      next hd =>
        split at hpart
        next =>
          obtain rfl : part = [d] := by simpa using hpart
          obtain rfl : c = d := by simpa using hc
          simpa using hd
        next first others heq =>
          rcases List.mem_cons.mp hpart with rfl | hpart
          · rcases List.mem_cons.mp hc with rfl | hc
            · simpa using hd
            · exact ih (by simp [splitAtSeparators, heq]) hc
          · exact ih (by simp [splitAtSeparators, heq, hpart]) hc

/-- No rule name is empty or holds a separator. -/
theorem mem_ruleNames {cs name : List Char} (h : name ∈ ruleNames cs) :
    name ≠ [] ∧ ∀ c ∈ name, separatesRules c = false := by
  obtain ⟨hsplit, hne⟩ := List.mem_filter.mp h
  exact ⟨by simpa using hne, fun c hc => mem_splitAtSeparators hsplit hc⟩

namespace RuleSelection

/-- The selection that a list of rules makes, unless it names none. -/
def ofList? (cs : List Char) : Option RuleSelection :=
  let names := (ruleNames cs).map String.ofList
  if names.isEmpty then none
  else if names.contains "all" then some .all
  else some (.named names)

/-- Whether a rule is selected. -/
def covers (selection : RuleSelection) (rule : String) : Bool :=
  match selection with
  | .all => true
  | .named ids => ids.contains rule

end RuleSelection

/-- The line a directive with a suffix speaks of, seen from its own. -/
inductive Target where
  | next
  | this
  | previous
deriving DecidableEq, Repr

/-- The line that a directive on a given line targets.  Nothing comes before
the first line. -/
def Target.line? (target : Target) (line : Nat) : Option Nat :=
  match target with
  | .next => some (line + 1)
  | .this => some line
  | .previous => if 1 < line then some (line - 1) else none

/-- What a comment commands: the verb, the suffix if any, and the rules. -/
structure Directive where
  disable : Bool
  target : Option Target
  rules : RuleSelection
deriving DecidableEq, Repr

namespace Directive

/-- What follows some leading characters. -/
def after? (leading cs : List Char) : Option (List Char) :=
  if leading.isPrefixOf cs then some (cs.drop leading.length) else none

/-- The verb at the start of some characters, and what follows it. -/
def verb? (cs : List Char) : Option (Bool × List Char) :=
  match after? "disable".toList cs with
  | some rest => some (true, rest)
  | none => (after? "enable".toList cs).map fun rest => (false, rest)

/-- The suffix at the start of some characters, if any, and what follows it. -/
def suffix (cs : List Char) : Option Target × List Char :=
  match after? ":next".toList cs, after? ":this".toList cs, after? ":previous".toList cs with
  | some rest, _, _ => (some .next, rest)
  | _, some rest, _ => (some .this, rest)
  | _, _, some rest => (some .previous, rest)
  | _, _, _ => (none, cs)

/-- Characters that may stand in a list of rules. -/
def isListCharacter (c : Char) : Bool :=
  c.isAlphanum || c == '_' || c == ',' || c == ' ' || c == '\t'

/-- The list of rules at the start of some characters: a space or tab and at
least one more character. -/
def ruleList? (cs : List Char) : Option (List Char) :=
  match cs.takeWhile isListCharacter with
  | c :: d :: more => if c = ' ' ∨ c = '\t' then some (d :: more) else none
  | _ => none

/-- The parts of the directive that some characters begin with: verb, suffix
and list of rules. -/
def leading? (cs : List Char) : Option (Bool × Option Target × List Char) := do
  let rest ← after? "//".toList cs
  let rest ← after? "structlint:".toList (dropBlanks rest)
  let (disable, rest) ← verb? rest
  let (target, rest) := suffix rest
  let rules ← ruleList? rest
  pure (disable, target, rules)

/-- The parts of the first directive among some characters. -/
def first? : List Char → Option (Bool × Option Target × List Char)
  | [] => none
  | c :: cs =>
      match leading? (c :: cs) with
      | some parts => some parts
      | none => first? cs

/-- The directive of a comment.  If the first one names no rule there is none. -/
def ofComment? (text : List Char) : Option Directive := do
  let (disable, target, rules) ← first? text
  let selection ← RuleSelection.ofList? rules
  pure ⟨disable, target, selection⟩

end Directive

/-- A directive without suffix, which holds for every line after its own. -/
structure Region where
  line : Nat
  disable : Bool
  rules : RuleSelection
deriving DecidableEq, Repr

/-- What the directives of a file silence: regions in source order, and single
lines. -/
structure Silencing where
  regions : List Region := []
  lines : List (Nat × RuleSelection) := []
deriving DecidableEq, Repr

namespace Silencing

/-- The region that a directive on a line begins. -/
def region? (line : Nat) (d : Directive) : Option Region :=
  match d.target with
  | none => some ⟨line, d.disable, d.rules⟩
  | some _ => none

/-- The single line that a directive on a line silences. -/
def line? (line : Nat) (d : Directive) : Option (Nat × RuleSelection) := do
  let target ← d.target
  let line ← target.line? line
  pure (line, d.rules)

/-- What the directives of some line comments silence. -/
def ofComments (comments : List LineComment) : Silencing :=
  let directives := comments.filterMap fun c =>
    (Directive.ofComment? c.text).map fun d => (c.line, d)
  { regions := directives.filterMap fun p => region? p.1 p.2
    lines := directives.filterMap fun p => line? p.1 p.2 }

/-- What the directives of a source text silence.  A text that cannot be cut
into pieces has none, which is noted. -/
def ofSource (source : String) : Logged Silencing :=
  match lineComments source with
  | .ok comments => pure (ofComments comments)
  | .error e => do
      Logged.note .debug s!"no disable commands read: {e.message}"
      pure {}

/-- Whether nothing is silenced. -/
def isEmpty (s : Silencing) : Bool := s.regions.isEmpty && s.lines.isEmpty

/-- Whether a rule is silent on a line: as a single line, or because the last
region that covers the rule and begins on an earlier line disables it. -/
def isDisabled (s : Silencing) (line : Nat) (rule : String) : Bool :=
  (s.lines.any fun p => p.1 == line && p.2.covers rule) ||
    (s.regions.takeWhile fun r => decide (r.line < line)).foldl
      (fun disabled r => if r.rules.covers rule then r.disable else disabled) false

end Silencing

end DeclLint
