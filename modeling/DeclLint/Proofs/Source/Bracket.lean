import DeclLint.Proofs.Outline.Move

/-!
# Brackets among tokens

Round, square and curly brackets are properly nested when every opening one is
closed by one of its kind and what is between the two is properly nested again
(`Bracket.Nested`).  A list of the brackets that are pending, innermost first,
decides it: an opening mark is put on the list, and a closing mark takes its kind
off it (`Bracket.after`).

* `Bracket.nested_iff` — tokens are properly nested exactly when they lead from the
  empty list to itself;
* `Bracket.BracesBalanced.of_after` — curly brackets that the list keeps up with
  are balanced if none is left on it.
-/

namespace DeclLint

/-- The kinds of brackets. -/
inductive Bracket where
  | round
  | square
  | brace
deriving DecidableEq, Repr

namespace Bracket

/-- The mark that opens a bracket. -/
def opening : Bracket → Char
  | round => '('
  | square => '['
  | brace => '{'

/-- The mark that closes a bracket. -/
def closing : Bracket → Char
  | round => ')'
  | square => ']'
  | brace => '}'

end Bracket

namespace Token

/-- The bracket that a token opens. -/
def opens? (t : Token) : Option Bracket :=
  match t.lexeme with
  | .mark '(' => some .round
  | .mark '[' => some .square
  | .mark '{' => some .brace
  | _ => none

/-- The bracket that a token closes. -/
def closes? (t : Token) : Option Bracket :=
  match t.lexeme with
  | .mark ')' => some .round
  | .mark ']' => some .square
  | .mark '}' => some .brace
  | _ => none

variable {t : Token} {b : Bracket}

theorem opens?_eq_some_iff : t.opens? = some b ↔ t.lexeme = .mark b.opening := by
  unfold opens?
  cases b <;> split <;> simp_all [Bracket.opening]

theorem closes?_eq_some_iff : t.closes? = some b ↔ t.lexeme = .mark b.closing := by
  unfold closes?
  cases b <;> split <;> simp_all [Bracket.closing]

/-- No mark opens one bracket and closes another. -/
theorem closes?_of_opens? (h : t.opens? = some b) : t.closes? = none := by
  rw [opens?_eq_some_iff] at h
  cases b <;> simp [closes?, h, Bracket.opening]

theorem opens?_of_closes? (h : t.closes? = some b) : t.opens? = none := by
  rw [closes?_eq_some_iff] at h
  cases b <;> simp [opens?, h, Bracket.closing]

theorem isWordOf_eq_true_iff {words : List String} :
    t.isWordOf words = true ↔ ∃ word ∈ words, t.lexeme = .word word := by
  unfold isWordOf word?
  cases t.lexeme <;> simp

theorem isWord_eq_true_iff : t.isWord = true ↔ ∃ word, t.lexeme = .word word := by
  unfold isWord word?
  cases t.lexeme <;> simp

/-- Only marks are brackets. -/
theorem plain_of_lexeme (h : ∀ c, t.lexeme ≠ .mark c) : t.opens? = none ∧ t.closes? = none := by
  constructor
  · cases hopens : t.opens? with
    | none => rfl
    | some b => exact absurd (opens?_eq_some_iff.mp hopens) (h _)
  · cases hcloses : t.closes? with
    | none => rfl
    | some b => exact absurd (closes?_eq_some_iff.mp hcloses) (h _)

theorem isMark_opening (t : Token) (b : Bracket) :
    t.isMark b.opening = (t.opens? == some b) := by
  rw [Bool.eq_iff_iff, beq_iff_eq, opens?_eq_some_iff]
  exact isMark_iff (by cases b <;> decide) (by cases b <;> decide)

theorem isMark_closing (t : Token) (b : Bracket) :
    t.isMark b.closing = (t.closes? == some b) := by
  rw [Bool.eq_iff_iff, beq_iff_eq, closes?_eq_some_iff]
  exact isMark_iff (by cases b <;> decide) (by cases b <;> decide)

theorem opens?_of_isMark (h : t.isMark b.opening = true) : t.opens? = some b := by
  simpa [isMark_opening] using h

theorem closes?_of_isMark (h : t.isMark b.closing = true) : t.closes? = some b := by
  simpa [isMark_closing] using h

/-- A token is one of some marks if it is any of them. -/
theorem isMarkOf_eq_any (t : Token) (marks : List Char) :
    t.isMarkOf marks = marks.any fun c => t.isMark c := by
  unfold isMarkOf isMark
  cases t.mark? with
  | none => simp
  | some d =>
      rw [Bool.eq_iff_iff]
      simp

/-- Whether a token is one of some opening marks is a matter of what it opens. -/
theorem isMarkOf_opening (t : Token) (bs : List Bracket) :
    t.isMarkOf (bs.map Bracket.opening) = t.opens?.any bs.contains := by
  rw [isMarkOf_eq_any, List.any_map, Bool.eq_iff_iff]
  simp [isMark_opening, Option.any_eq_true, and_comm]

/-- Whether a token is one of some closing marks is a matter of what it closes. -/
theorem isMarkOf_closing (t : Token) (bs : List Bracket) :
    t.isMarkOf (bs.map Bracket.closing) = t.closes?.any bs.contains := by
  rw [isMarkOf_eq_any, List.any_map, Bool.eq_iff_iff]
  simp [isMark_closing, Option.any_eq_true, and_comm]

/-- What the reader asks of a token that opens a bracket. -/
theorem isMarkOf_of_opens (h : t.opens? = some b) :
    t.isMark '{' = (b == .brace) ∧ t.isMarkOf ['(', '['] = (b != .brace) ∧
      t.isMarkOf ['(', '[', '{'] = true := by
  refine ⟨?_, ?_, ?_⟩
  · exact (t.isMark_opening .brace).trans (by rw [h]; cases b <;> rfl)
  · exact (t.isMarkOf_opening [.round, .square]).trans (by rw [h]; cases b <;> rfl)
  · exact (t.isMarkOf_opening [.round, .square, .brace]).trans (by rw [h]; cases b <;> rfl)

/-- What the reader asks of a token that opens no bracket. -/
theorem isMarkOf_of_opens_none (h : t.opens? = none) :
    t.isMark '{' = false ∧ t.isMarkOf ['(', '['] = false ∧
      t.isMarkOf ['(', '[', '{'] = false := by
  refine ⟨?_, ?_, ?_⟩
  · exact (t.isMark_opening .brace).trans (by rw [h]; rfl)
  · exact (t.isMarkOf_opening [.round, .square]).trans (by rw [h]; rfl)
  · exact (t.isMarkOf_opening [.round, .square, .brace]).trans (by rw [h]; rfl)

/-- What the reader asks of a token that closes a bracket. -/
theorem isMarkOf_of_closes (h : t.closes? = some b) :
    t.isMark '}' = (b == .brace) ∧ t.isMarkOf [')', ']'] = (b != .brace) ∧
      t.isMarkOf [')', ']', '}'] = true := by
  refine ⟨?_, ?_, ?_⟩
  · exact (t.isMark_closing .brace).trans (by rw [h]; cases b <;> rfl)
  · exact (t.isMarkOf_closing [.round, .square]).trans (by rw [h]; cases b <;> rfl)
  · exact (t.isMarkOf_closing [.round, .square, .brace]).trans (by rw [h]; cases b <;> rfl)

/-- What the reader asks of a token that closes no bracket. -/
theorem isMarkOf_of_closes_none (h : t.closes? = none) :
    t.isMark '}' = false ∧ t.isMarkOf [')', ']'] = false ∧
      t.isMarkOf [')', ']', '}'] = false := by
  refine ⟨?_, ?_, ?_⟩
  · exact (t.isMark_closing .brace).trans (by rw [h]; rfl)
  · exact (t.isMarkOf_closing [.round, .square]).trans (by rw [h]; rfl)
  · exact (t.isMarkOf_closing [.round, .square, .brace]).trans (by rw [h]; rfl)

end Token

namespace Bracket

/-- The brackets pending after one more token: one that opens a bracket adds it,
one that closes a bracket has to close the innermost one. -/
def turn (pending : List Bracket) (t : Token) : Option (List Bracket) :=
  match t.opens?, t.closes? with
  | some b, _ => some (b :: pending)
  | none, some b =>
      match pending with
      | [] => none
      | inner :: outer => if inner = b then some outer else none
  | none, none => some pending

/-- The brackets pending after some more tokens. -/
def after (pending : List Bracket) : List Token → Option (List Bracket)
  | [] => some pending
  | t :: ts => (turn pending t).bind fun left => after left ts

/-- Tokens among which every bracket is closed by one of its kind, and what is
between the two is of the same sort. -/
inductive Nested : List Token → Prop
  | nil : Nested []
  | plain {t : Token} {ts : List Token} (hopens : t.opens? = none)
      (hcloses : t.closes? = none) (tail : Nested ts) : Nested (t :: ts)
  | group {b : Bracket} {first last : Token} {inner ts : List Token}
      (hfirst : first.opens? = some b) (hlast : last.closes? = some b)
      (hinner : Nested inner) (tail : Nested ts) : Nested (first :: (inner ++ last :: ts))

variable {pending left final : List Bracket} {t : Token} {ts xs ys : List Token} {b : Bracket}

theorem turn_of_opens (h : t.opens? = some b) (pending : List Bracket) :
    turn pending t = some (b :: pending) := by
  simp [turn, h]

theorem turn_of_closes (h : t.closes? = some b) (pending : List Bracket) :
    turn (b :: pending) t = some pending := by
  simp [turn, h, Token.opens?_of_closes? h]

theorem turn_of_plain (hopens : t.opens? = none) (hcloses : t.closes? = none)
    (pending : List Bracket) : turn pending t = some pending := by
  simp [turn, hopens, hcloses]

/-- **What a token does to the pending brackets.** -/
theorem turn_cases (h : turn pending t = some left) :
    (∃ b, t.opens? = some b ∧ left = b :: pending) ∨
      (∃ b, t.closes? = some b ∧ pending = b :: left) ∨
      (t.opens? = none ∧ t.closes? = none ∧ left = pending) := by
  unfold turn at h
  split at h
  next b hopens =>
    obtain rfl := Option.some.inj h
    exact .inl ⟨b, hopens, rfl⟩
  next b _ hcloses =>
    split at h
    next => simp at h
    next inner outer =>
      split at h
      next hinner =>
        obtain rfl := Option.some.inj h
        exact .inr (.inl ⟨b, hcloses, by rw [hinner]⟩)
      next => simp at h
  next hopens hcloses =>
    obtain rfl := Option.some.inj h
    exact .inr (.inr ⟨hopens, hcloses, rfl⟩)

@[simp] theorem after_nil (pending : List Bracket) : after pending [] = some pending := rfl

theorem after_cons (pending : List Bracket) (t : Token) (ts : List Token) :
    after pending (t :: ts) = (turn pending t).bind fun left => after left ts := rfl

theorem after_cons_eq_some_iff :
    after pending (t :: ts) = some final ↔
      ∃ left, turn pending t = some left ∧ after left ts = some final := by
  rw [after_cons, Option.bind_eq_some_iff]

/-- What is pending behind two stretches, one after the other. -/
theorem after_append (pending : List Bracket) (xs ys : List Token) :
    after pending (xs ++ ys) = (after pending xs).bind fun left => after left ys := by
  induction xs generalizing pending with
  | nil => rfl
  | cons t xs ih =>
      rw [List.cons_append, after_cons, after_cons, Option.bind_assoc]
      congr 1
      funext left
      exact ih left

/-- Brackets further out do not matter. -/
theorem turn_append (h : turn pending t = some left) (outer : List Bracket) :
    turn (pending ++ outer) t = some (left ++ outer) := by
  rcases turn_cases h with ⟨b, hopens, rfl⟩ | ⟨b, hcloses, rfl⟩ | ⟨hopens, hcloses, rfl⟩
  · exact turn_of_opens hopens _
  · exact turn_of_closes hcloses _
  · exact turn_of_plain hopens hcloses _

/-- **Brackets further out do not matter.** -/
theorem after_append_outer (h : after pending ts = some left) (outer : List Bracket) :
    after (pending ++ outer) ts = some (left ++ outer) := by
  induction ts generalizing pending with
  | nil =>
      obtain rfl := Option.some.inj h
      rfl
  | cons t ts ih =>
      obtain ⟨mid, hturn, hrest⟩ := after_cons_eq_some_iff.mp h
      exact after_cons_eq_some_iff.mpr ⟨mid ++ outer, turn_append hturn outer, ih hrest⟩

/-- Nested brackets leave pending what was pending before. -/
theorem Nested.after_eq (h : Nested ts) (pending : List Bracket) :
    after pending ts = some pending := by
  induction h generalizing pending with
  | nil => rfl
  | plain hopens hcloses _ ih =>
      exact after_cons_eq_some_iff.mpr ⟨pending, turn_of_plain hopens hcloses pending, ih pending⟩
  | @group b first last inner ts hfirst hlast _ _ ihinner ih =>
      refine after_cons_eq_some_iff.mpr ⟨b :: pending, turn_of_opens hfirst pending, ?_⟩
      rw [after_append, ihinner, Option.bind_some]
      exact after_cons_eq_some_iff.mpr ⟨pending, turn_of_closes hlast pending, ih pending⟩

/-- Tokens that close the pending brackets one by one, with properly nested tokens
before each closing mark and behind the last one. -/
def Unwinds : List Bracket → List Token → Prop
  | [], ts => Nested ts
  | b :: outer, ts => ∃ inner last rest, ts = inner ++ last :: rest ∧
      last.closes? = some b ∧ Nested inner ∧ Unwinds outer rest

theorem Unwinds.plain (hopens : t.opens? = none) (hcloses : t.closes? = none)
    (h : Unwinds pending ts) : Unwinds pending (t :: ts) := by
  cases pending with
  | nil => exact .plain hopens hcloses h
  | cons b outer =>
      obtain ⟨inner, last, rest, rfl, hlast, hinner, hrest⟩ := h
      exact ⟨t :: inner, last, rest, rfl, hlast, .plain hopens hcloses hinner, hrest⟩

/-- A nested group may stand in front of what closes the pending brackets. -/
theorem Unwinds.group {inner rest : List Token} {last : Token} (hopens : t.opens? = some b)
    (hlast : last.closes? = some b) (hinner : Nested inner) (h : Unwinds pending rest) :
    Unwinds pending (t :: (inner ++ last :: rest)) := by
  cases pending with
  | nil => exact .group hopens hlast hinner h
  | cons c outer =>
      obtain ⟨more, final, rest, rfl, hfinal, hmore, hrest⟩ := h
      refine ⟨t :: (inner ++ last :: more), final, rest, by simp, hfinal, ?_, hrest⟩
      exact .group hopens hlast hinner hmore

/-- Brackets that are all closed unwind what was pending before them. -/
theorem unwinds_of_after (h : after pending ts = some []) : Unwinds pending ts := by
  induction ts generalizing pending with
  | nil =>
      obtain rfl := Option.some.inj h
      exact .nil
  | cons t ts ih =>
      obtain ⟨left, hturn, hrest⟩ := after_cons_eq_some_iff.mp h
      have hunwinds := ih hrest
      rcases turn_cases hturn with
        ⟨b, hopens, rfl⟩ | ⟨b, hcloses, rfl⟩ | ⟨hopens, hcloses, rfl⟩
      · obtain ⟨inner, last, rest, rfl, hlast, hinner, hrest⟩ := hunwinds
        exact .group hopens hlast hinner hrest
      · exact ⟨[], t, ts, rfl, hcloses, .nil, hunwinds⟩
      · exact hunwinds.plain hopens hcloses

/-- **Proper nesting is decided by a list.** -/
theorem nested_iff : Nested ts ↔ after [] ts = some [] := by
  constructor
  · intro h
    exact h.after_eq []
  · intro h
    exact unwinds_of_after h

instance (ts : List Token) : Decidable (Nested ts) := decidable_of_iff _ nested_iff.symm

/-- How many curly brackets some tokens open. -/
def openedBraces (ts : List Token) : Nat := ts.countP fun t => t.lexeme == .mark '{'

/-- How many curly brackets some tokens close. -/
def closedBraces (ts : List Token) : Nat := ts.countP fun t => t.lexeme == .mark '}'

/-- Curly brackets are balanced: at no place were more closed than opened, and in
the end as many. -/
structure BracesBalanced (ts : List Token) : Prop where
  never_ahead : ∀ xs, xs <+: ts → closedBraces xs ≤ openedBraces xs
  total : closedBraces ts = openedBraces ts

@[simp] theorem openedBraces_append (xs ys : List Token) :
    openedBraces (xs ++ ys) = openedBraces xs + openedBraces ys :=
  List.countP_append

@[simp] theorem closedBraces_append (xs ys : List Token) :
    closedBraces (xs ++ ys) = closedBraces xs + closedBraces ys :=
  List.countP_append

theorem openedBraces_cons (t : Token) (ts : List Token) :
    openedBraces (t :: ts) = openedBraces ts + if t.opens? = some .brace then 1 else 0 := by
  have hiff : (t.lexeme == .mark '{') = true ↔ t.opens? = some .brace := by
    rw [beq_iff_eq, Token.opens?_eq_some_iff, opening]
  simp only [openedBraces, List.countP_cons, hiff]

theorem closedBraces_cons (t : Token) (ts : List Token) :
    closedBraces (t :: ts) = closedBraces ts + if t.closes? = some .brace then 1 else 0 := by
  have hiff : (t.lexeme == .mark '}') = true ↔ t.closes? = some .brace := by
    rw [beq_iff_eq, Token.closes?_eq_some_iff, closing]
  simp only [closedBraces, List.countP_cons, hiff]

/-- **The curly brackets pending.**  They are those opened and not closed. -/
theorem braces_after (h : after pending ts = some left) :
    left.count .brace + closedBraces ts = pending.count .brace + openedBraces ts := by
  induction ts generalizing pending with
  | nil =>
      obtain rfl := Option.some.inj h
      rfl
  | cons t ts ih =>
      obtain ⟨mid, hturn, hrest⟩ := after_cons_eq_some_iff.mp h
      have hcount := ih hrest
      rw [openedBraces_cons, closedBraces_cons]
      rcases turn_cases hturn with
        ⟨b, hopens, rfl⟩ | ⟨b, hcloses, rfl⟩ | ⟨hopens, hcloses, rfl⟩
      · rw [hopens, Token.closes?_of_opens? hopens]
        simp only [List.count_cons, beq_iff_eq] at hcount
        simp only [Option.some.injEq, reduceCtorEq, if_false]
        omega
      · rw [Token.opens?_of_closes? hcloses, hcloses]
        simp only [List.count_cons, beq_iff_eq, Option.some.injEq, reduceCtorEq, if_false]
        omega
      · rw [hopens, hcloses]
        simpa using hcount

/-- Where the list keeps up, no curly bracket is closed before it is opened. -/
theorem closedBraces_le_of_after (h : after [] ts = some left) (hxs : xs <+: ts) :
    closedBraces xs ≤ openedBraces xs := by
  obtain ⟨ys, rfl⟩ := hxs
  rw [after_append] at h
  obtain ⟨mid, hmid, -⟩ := Option.bind_eq_some_iff.mp h
  have hcount := braces_after hmid
  rw [List.count_nil] at hcount
  omega

/-- Where the list keeps up and holds no curly bracket in the end, they are
balanced. -/
theorem BracesBalanced.of_after (h : after [] ts = some left) (hleft : left.count .brace = 0) :
    BracesBalanced ts := by
  refine ⟨fun xs hxs => closedBraces_le_of_after h hxs, ?_⟩
  have hcount := braces_after h
  rw [hleft, List.count_nil] at hcount
  omega

end Bracket

end DeclLint
