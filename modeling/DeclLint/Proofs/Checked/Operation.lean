import DeclLint.Proofs.Text.Span

/-!
# Checked operations

A machine stops where it cannot carry out an operation: at a sum that fits no word, at a
difference below zero, at an access behind the end of a list, or where a text is to be cut
inside of a character.  What is computed here says so: a checked computation ends with a
result, with a refusal that it decides on itself, or with such a fault.  To show that no
fault can occur is to show that a computation ends like one that has none
(`Checked.ofExcept`).

* `Checked.add`, `Checked.sub`, `Checked.get`, `Checked.part`, `Checked.slice` — the
  operations;
* `Checked.slice_of_append` — a text is cut at the ends of its parts.
-/

namespace DeclLint

/-- Why a machine stops. -/
inductive Fault where
  /-- A sum that fits no word. -/
  | overflow (a b : Nat)
  /-- A difference below zero. -/
  | underflow (a b : Nat)
  /-- An access behind the end of a list. -/
  | outOfRange (index length : Nat)
  /-- A cut behind the end of a text or inside of a character. -/
  | offBoundary (offset : Nat)
  /-- A loop that does not get on. -/
  | stuck (position : Nat)
deriving DecidableEq, Repr

/-- How a computation ends without a result. -/
inductive Halt (ε : Type) where
  | refused (e : ε)
  | fault (f : Fault)
deriving DecidableEq, Repr

/-- A computation all of whose operations are checked. -/
abbrev Checked (ε α : Type) := Except (Halt ε) α

namespace Checked

variable {ε δ α β : Type}

/-- A computation without faults. -/
def ofExcept (x : Except ε α) : Checked ε α := x.mapError .refused

/-- End with a refusal. -/
def refuse (e : ε) : Checked ε α := .error (.refused e)

/-- A loop that is where it was. -/
def stuck (position : Nat) : Checked ε α := .error (.fault (.stuck position))

/-- Go on after a refusal. -/
def attempt : Checked ε α → Checked δ (Except ε α)
  | .ok a => .ok (.ok a)
  | .error (.refused e) => .ok (.error e)
  | .error (.fault f) => .error (.fault f)

/-- The sum of two offsets. -/
def add (a b : Nat) : Checked ε Nat :=
  if a + b ≤ maxOffset then .ok (a + b) else .error (.fault (.overflow a b))

/-- The difference of two offsets. -/
def sub (a b : Nat) : Checked ε Nat :=
  if b ≤ a then .ok (a - b) else .error (.fault (.underflow a b))

/-- The entry of a list at an index. -/
def get (as : List α) (index : Nat) : Checked ε α :=
  match as[index]? with
  | some a => .ok a
  | none => .error (.fault (.outOfRange index as.length))

/-- The entries of a list from an index on. -/
def tail (as : List α) (index : Nat) : Checked ε (List α) :=
  if index ≤ as.length then .ok (as.drop index)
  else .error (.fault (.outOfRange index as.length))

/-- The entries of a list from one index up to another. -/
def part (as : List α) (start stop : Nat) : Checked ε (List α) := do
  let ahead ← tail as start
  let length ← sub stop start
  if length ≤ ahead.length then pure (ahead.take length)
  else .error (.fault (.outOfRange stop as.length))

/-- Whether two tests hold, the second of which is only made if the first one holds. -/
def both (b : Bool) (x : Checked ε Bool) : Checked ε Bool := if b then x else pure false

/-- The characters before a place where a text may be cut. -/
def boundary (t : Text) (offset : Nat) : Checked ε Nat :=
  match t.toCharOffset offset with
  | .ok index => .ok index
  | .error _ => .error (.fault (.offBoundary offset))

/-- The text between two offsets in bytes. -/
def slice (t : Text) (start stop : Nat) : Checked ε String := do
  let first ← boundary t start
  let last ← boundary t stop
  let length ← sub last first
  pure (t.slice ⟨first, length⟩)

@[simp] theorem ok_bind (a : α) (f : α → Checked ε β) : (Except.ok a >>= f) = f a := rfl

@[simp] theorem error_bind (e : Halt ε) (f : α → Checked ε β) :
    ((Except.error e : Checked ε α) >>= f) = .error e := rfl

@[simp] theorem ofExcept_ok (a : α) : ofExcept (.ok a : Except ε α) = .ok a := rfl

@[simp] theorem ofExcept_error (e : ε) :
    ofExcept (.error e : Except ε α) = .error (.refused e) := rfl

@[simp] theorem attempt_ofExcept (x : Except ε α) :
    (attempt (ofExcept x) : Checked δ (Except ε α)) = .ok x := by
  cases x <;> rfl

theorem add_eq {a b : Nat} (h : a + b ≤ maxOffset) : (add a b : Checked ε Nat) = .ok (a + b) :=
  if_pos h

theorem sub_eq {a b : Nat} (h : b ≤ a) : (sub a b : Checked ε Nat) = .ok (a - b) := if_pos h

theorem get_eq {as : List α} {index : Nat} {a : α} (h : as[index]? = some a) :
    (get as index : Checked ε α) = .ok a := by
  rw [get, h]

theorem tail_eq {as : List α} {index : Nat} (h : index ≤ as.length) :
    (tail as index : Checked ε (List α)) = .ok (as.drop index) := if_pos h

theorem part_eq {as : List α} {start stop : Nat} (h : start ≤ stop) (hstop : stop ≤ as.length) :
    (part as start stop : Checked ε (List α)) = .ok ((as.drop start).take (stop - start)) := by
  have hfits : stop - start ≤ (as.drop start).length := by
    rw [List.length_drop]
    omega
  rw [part, tail_eq (Nat.le_trans h hstop), ok_bind, sub_eq h, ok_bind, if_pos hfits]
  rfl

/-- The second test need not be possible where the first one fails. -/
theorem both_eq {b c : Bool} {x : Checked ε Bool} (h : b = true → x = .ok c) :
    both b x = .ok (b && c) := by
  cases b with
  | false => rfl
  | true => exact h rfl

/-- A text may be cut behind some leading characters. -/
theorem boundary_of_append {t : Text} {front back : List Char} (h : t.chars = front ++ back) :
    (boundary t (utf8Size front) : Checked ε Nat) = .ok front.length := by
  rw [boundary, Text.toCharOffset_eq_ok_iff.mpr ⟨front, back, h, rfl, rfl⟩]

/-- **Cutting a text.**  What is cut between two parts of a text is what is between
them. -/
theorem slice_of_append {t : Text} {front mid back : List Char}
    (h : t.chars = front ++ mid ++ back) :
    (slice t (utf8Size front) (utf8Size front + utf8Size mid) : Checked ε String) =
      .ok (String.ofList mid) := by
  have hstart : t.chars = front ++ (mid ++ back) := h.trans (List.append_assoc _ _ _)
  have hstop := boundary_of_append (ε := ε) h
  rw [utf8Size_append, List.length_append] at hstop
  rw [slice, boundary_of_append hstart, hstop, ok_bind, ok_bind, sub_eq (by omega), ok_bind,
    Nat.add_sub_cancel_left, Text.slice_of_chars_eq h]
  rfl

end Checked

end DeclLint
