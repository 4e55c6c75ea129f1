/-!
# The calendar

A moment is a number of seconds since the beginning of 1970, in universal time.
Years are counted from March, so that the leap day comes last; 400 of them have
146097 days.

* `Date.ofDays` — the date of a day;
* `Date.ofDays_add_cycle` — dates repeat after 400 years;
* `isoMoment` — a moment as `2024-01-31T23:59:59Z`.
-/

namespace DeclLint

/-- A date. -/
structure Date where
  year : Nat
  /-- Month, counted from one. -/
  month : Nat
  /-- Day of the month, counted from one. -/
  day : Nat
deriving DecidableEq, Repr

/-- The date of a day, counted from the first of January 1970. -/
def Date.ofDays (days : Nat) : Date :=
  let sinceMarchOfYear0 := days + 719468
  let cycle := sinceMarchOfYear0 / 146097
  let inCycle := sinceMarchOfYear0 % 146097
  let yearInCycle := (inCycle - inCycle / 1460 + inCycle / 36524 - inCycle / 146096) / 365
  let inYear := inCycle - (365 * yearInCycle + yearInCycle / 4 - yearInCycle / 100)
  let monthFromMarch := (5 * inYear + 2) / 153
  { year := yearInCycle + cycle * 400 + (if 10 ≤ monthFromMarch then 1 else 0)
    month := if monthFromMarch < 10 then monthFromMarch + 3 else monthFromMarch - 9
    day := inYear - (153 * monthFromMarch + 2) / 5 + 1 }

/-- The calendar repeats: after as many days as 400 years have, month and day are the
same. -/
theorem Date.ofDays_add_cycle (days : Nat) :
    ofDays (days + 146097) =
      ⟨(ofDays days).year + 400, (ofDays days).month, (ofDays days).day⟩ := by
  have hcycle : (days + 719468 + 146097) / 146097 = (days + 719468) / 146097 + 1 :=
    Nat.add_div_right _ (by decide)
  have hinCycle : (days + 719468 + 146097) % 146097 = (days + 719468) % 146097 :=
    Nat.add_mod_right _ _
  unfold ofDays
  rw [Nat.add_right_comm days]
  dsimp only
  rw [hcycle, hinCycle, Nat.add_mul, Nat.one_mul, ← Nat.add_assoc, Nat.add_right_comm _ 400]

/-- The 29th of February 2000, and the same day 400 years later. -/
example : Date.ofDays 11016 = ⟨2000, 2, 29⟩ ∧ Date.ofDays 157113 = ⟨2400, 2, 29⟩ := by decide

/-- A number with zeros in front, up to a width. -/
def padded (width n : Nat) : String :=
  let digits := (toString n).toList
  String.ofList (List.replicate (width - digits.length) '0' ++ digits)

/-- A moment in the form `2024-01-31T23:59:59Z`. -/
def isoMoment (seconds : Nat) : String :=
  let date := Date.ofDays (seconds / 86400)
  let time := seconds % 86400
  let day := s!"{padded 4 date.year}-{padded 2 date.month}-{padded 2 date.day}"
  s!"{day}T{padded 2 (time / 3600)}:{padded 2 (time / 60 % 60)}:{padded 2 (time % 60)}Z"

end DeclLint
