/-!
# Spans of a text, in bytes and in characters

A structure producer reports positions in bytes of the UTF-8 text; a violation
and a correction are placed in characters.  Both kinds of span are an inclusive
`location` and a `length`.  Offsets are machine words: the end of a span exists
only if it fits 64 bits.

* `offsetSum?_eq_some_iff` — an end exists exactly when it fits;
* `ByteRange.contains_eq_true_iff` — containment, read on the two ends;
* `CharRange.intersects_comm` — sharing text is symmetric.
-/

namespace DeclLint

/-- The largest offset that fits a 64-bit word. -/
def maxOffset : Nat := 0xFFFFFFFFFFFFFFFF

/-- The sum of an offset and a length, if it fits a word. -/
def offsetSum? (location length : Nat) : Option Nat :=
  if location + length ≤ maxOffset then some (location + length) else none

/-- An end exists exactly when it fits. -/
theorem offsetSum?_eq_some_iff {location length stop : Nat} :
    offsetSum? location length = some stop ↔
      location + length = stop ∧ stop ≤ maxOffset := by
  unfold offsetSum?
  split <;> grind

/-- A span of bytes. -/
structure ByteRange where
  location : Nat
  length : Nat
deriving DecidableEq, Repr, Inhabited

namespace ByteRange

/-- The offset just past the span. -/
def stop (r : ByteRange) : Nat := r.location + r.length

/-- The offset just past the span, if it fits a word. -/
def stop? (r : ByteRange) : Option Nat := offsetSum? r.location r.length

/-- The span between two offsets. -/
def between (start stop : Nat) : ByteRange := ⟨start, stop - start⟩

/-- Whether `inner` lies entirely inside `outer`.  A span whose end does not
fit contains nothing and is contained by nothing. -/
def contains (outer inner : ByteRange) : Bool :=
  match outer.stop?, inner.stop? with
  | some outerStop, some innerStop =>
      decide (outer.location ≤ inner.location) && decide (innerStop ≤ outerStop)
  | _, _ => false

/-- Containment, read on the two ends. -/
theorem contains_eq_true_iff {outer inner : ByteRange} :
    outer.contains inner = true ↔
      outer.location ≤ inner.location ∧ inner.stop ≤ outer.stop ∧
        outer.stop ≤ maxOffset := by
  unfold contains
  split
  next outerStop innerStop houter hinner =>
    obtain ⟨houterStop, houterFits⟩ := offsetSum?_eq_some_iff.mp houter
    obtain ⟨hinnerStop, _⟩ := offsetSum?_eq_some_iff.mp hinner
    simp only [Bool.and_eq_true, decide_eq_true_eq, stop]
    omega
  next hno =>
    simp only [Bool.false_eq_true, false_iff, not_and]
    intro _ hwithin hfits
    have houter : outer.stop? = some outer.stop := offsetSum?_eq_some_iff.mpr ⟨rfl, hfits⟩
    have hinner : inner.stop? = some inner.stop :=
      offsetSum?_eq_some_iff.mpr ⟨rfl, Nat.le_trans hwithin hfits⟩
    exact hno _ _ houter hinner

end ByteRange

/-- A span of characters. -/
structure CharRange where
  location : Nat
  length : Nat
deriving DecidableEq, Repr, Inhabited

namespace CharRange

/-- The offset just past the span. -/
def stop (r : CharRange) : Nat := r.location + r.length

/-- The offset just past the span, if it fits a word. -/
def stop? (r : CharRange) : Option Nat := offsetSum? r.location r.length

/-- Whether two spans share text.  Touching spans do not.  An empty span is an
insertion point: it meets a span that strictly surrounds it and another
insertion point at the same place. -/
def intersects (a b : CharRange) : Bool :=
  if a.length = 0 ∧ b.length = 0 then a.location = b.location
  else if a.length = 0 then b.location < a.location && a.location < b.stop
  else if b.length = 0 then a.location < b.location && b.location < a.stop
  else a.location < b.stop && b.location < a.stop

/-- Sharing text is symmetric. -/
theorem intersects_comm (a b : CharRange) : a.intersects b = b.intersects a := by
  unfold intersects
  by_cases ha : a.length = 0 <;> by_cases hb : b.length = 0
  · simp only [ha, hb, and_self, if_true, eq_comm]
  · simp only [ha, hb, and_false, false_and, if_false, if_true]
  · simp only [ha, hb, and_false, false_and, if_false, if_true]
  · simp only [ha, hb, and_false, if_false, Bool.and_comm]

end CharRange

end DeclLint
