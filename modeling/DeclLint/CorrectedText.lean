import DeclLint.Finding
import DeclLint.Log

/-!
# Applying corrections to a text

Corrections of all rules are pooled and sorted by where they start, then by
their rule.  In that order each is accepted unless it points outside the text or
touches what the last accepted one replaces.  The accepted ones are spliced in
from the last to the first, so a range still to come keeps pointing at the
characters it was made for.

* `Correction.select` — which corrections are accepted and which dropped;
* `CorrectedText.ofCorrections` — the corrected text with both lists;
* `Correction.select_perm` — no correction is lost.
-/

namespace DeclLint

namespace Correction

/-- The order in which corrections are considered. -/
def precedes (a b : Correction) : Bool :=
  decide (a.range.location < b.range.location) ||
    (a.range.location == b.range.location && decide (a.ruleIndex ≤ b.ruleIndex))

/-- Whether a correction cannot follow an accepted one: the two share text, or
they start at one place, even if both only insert. -/
def conflicts (last next : Correction) : Bool :=
  last.range.intersects next.range || next.range.location == last.range.location

/-- Split sorted corrections into accepted and dropped ones, given the last one
accepted before them.  The reason for every drop is noted. -/
def select (t : Text) (last : Option Correction) :
    List Correction → Logged (List Correction × List Correction)
  | [] => pure ([], [])
  | c :: cs =>
      match t.toByteRange c.range with
      | .error e => do
          Logged.note .warning
            s!"{c.ruleId} correction at {c.location.render} not applied: {e.message}"
          let (accepted, dropped) ← select t last cs
          pure (accepted, c :: dropped)
      | .ok _ =>
          match last.filter fun l => conflicts l c with
          | some l => do
              Logged.note .debug
                s!"{c.ruleId} correction at {c.location.render} not applied: overlaps {l.ruleId} correction"
              let (accepted, dropped) ← select t last cs
              pure (accepted, c :: dropped)
          | none => do
              let (accepted, dropped) ← select t (some c) cs
              pure (c :: accepted, dropped)

/-- No correction is lost. -/
theorem select_perm (t : Text) (last : Option Correction) (cs : List Correction) :
    ((select t last cs).value.1 ++ (select t last cs).value.2).Perm cs := by
  induction cs generalizing last with
  | nil => exact .refl _
  | cons c cs ih =>
      simp only [select]
      split
      · exact List.perm_middle.trans ((ih last).cons c)
      split
      · exact List.perm_middle.trans ((ih last).cons c)
      · exact (ih (some c)).cons c

end Correction

/-- A text after a batch of corrections. -/
structure CorrectedText where
  contents : String
  /-- The corrections made, in the order of the text. -/
  applied : List Correction
  /-- The corrections not made, in the order they were considered. -/
  dropped : List Correction
deriving DecidableEq, Repr

namespace CorrectedText

/-- Whether anything was corrected. -/
def changed (r : CorrectedText) : Bool := !r.applied.isEmpty

/-- Splice accepted corrections into a text, the last one first. -/
def spliceAll (t : Text) (accepted : List Correction) : Text :=
  accepted.foldr (fun c t => t.splice c.range c.replacement) t

/-- Apply corrections to a text. -/
def ofCorrections (t : Text) (corrections : List Correction) : Logged CorrectedText := do
  let (accepted, dropped) ← Correction.select t none (corrections.mergeSort Correction.precedes)
  pure ⟨(spliceAll t accepted).contents, accepted, dropped⟩

end CorrectedText

end DeclLint
