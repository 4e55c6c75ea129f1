import DeclLint.Toml.Basic

/-!
# Bare values in TOML

Booleans, numbers, dates and times are runs of letters, digits and a few marks.
Underscores may stand between digits only.  An integer fits 64 signed bits, a
float is no greater than the greatest finite double rounds up from, and dates
and times are on the calendar and the clock.

* `Toml.bare?` — the value that a run spells;
* `Toml.spaced?` — the date and time that two runs spell, with a space between;
* `plainDigits?_all` — digits without their underscores are digits.
-/

namespace DeclLint

namespace Toml

/-- Whether a character may be part of a bare value. -/
def isBareCharacter (c : Char) : Bool :=
  c.isAlphanum || c == '_' || c == '+' || c == '-' || c == '.' || c == ':'

/-- Digits without the underscores between them. -/
def plainDigits? (isDigit : Char → Bool) : List Char → Option (List Char)
  | [] => none
  | [c] => if isDigit c then some [c] else none
  | c :: '_' :: rest => if isDigit c then (plainDigits? isDigit rest).map (c :: ·) else none
  | c :: rest => if isDigit c then (plainDigits? isDigit rest).map (c :: ·) else none

/-- Digits without their underscores are digits. -/
theorem plainDigits?_all {isDigit : Char → Bool} {cs digits : List Char}
    (h : plainDigits? isDigit cs = some digits) : ∀ c ∈ digits, isDigit c = true := by
  fun_induction plainDigits? isDigit cs generalizing digits <;> simp_all
  all_goals
    obtain ⟨others, hothers, rfl⟩ := h
    simp_all

/-- The number that digits spell in a base up to 16. -/
def digitsValue (base : Nat) (digits : List Char) : Nat :=
  digits.foldl
    (fun n c =>
      n * base +
        (if c.isDigit then c.toNat - '0'.toNat
          else if c.isUpper then c.toNat - 'A'.toNat + 10
          else c.toNat - 'a'.toNat + 10))
    0

/-- A sign in front, if there is one: whether it is a minus, and what follows. -/
def splitSign : List Char → Bool × List Char
  | '-' :: rest => (true, rest)
  | '+' :: rest => (false, rest)
  | cs => (false, cs)

/-- Decimal digits that do not begin with a zero unless they are one. -/
def decimalDigits? (cs : List Char) : Option (List Char) := do
  let digits ← plainDigits? Char.isDigit cs
  if digits.head? = some '0' ∧ digits.length ≠ 1 then none else some digits

/-- An integer, if it fits 64 signed bits. -/
def int64? (negative : Bool) (n : Nat) : Option Toml :=
  if negative then
    if n ≤ 0x8000000000000000 then some (.integer (-(n : Int))) else none
  else if n < 0x8000000000000000 then some (.integer n) else none

/-- A decimal integer. -/
def decimal? (cs : List Char) : Option Toml := do
  let (negative, rest) := splitSign cs
  let digits ← decimalDigits? rest
  int64? negative (digitsValue 10 digits)

/-- An integer in a base that its first two characters tell. -/
def based? : List Char → Option Toml
  | '0' :: 'x' :: rest => do
      int64? false (digitsValue 16 (← plainDigits? (fun c => c.isDigit || ('a' ≤ c && c ≤ 'f') ||
        ('A' ≤ c && c ≤ 'F')) rest))
  | '0' :: 'o' :: rest => do
      int64? false (digitsValue 8 (← plainDigits? (fun c => '0' ≤ c && c ≤ '7') rest))
  | '0' :: 'b' :: rest => do
      int64? false (digitsValue 2 (← plainDigits? (fun c => c == '0' || c == '1') rest))
  | _ => none

/-- Half the last place above the greatest finite double. -/
def doubleLimit : Nat := Nat.pow 2 1024 - Nat.pow 2 970

/-- Whether the decimal `digits · 10 ^ up / 10 ^ down` exceeds every double. -/
def exceedsDouble (digits : List Char) (up down : Nat) : Bool :=
  let n := digitsValue 10 digits
  if n = 0 then false
  else if down ≤ up then 400 < up - down || doubleLimit ≤ n * Nat.pow 10 (up - down)
  else if digits.length ≤ down - up then false
  else doubleLimit * Nat.pow 10 (down - up) ≤ n

/-- A float with a fraction, an exponent, or both. -/
def float? (cs : List Char) : Option Toml := do
  let (negative, rest) := splitSign cs
  let isExponentMark := fun c => c == 'e' || c == 'E'
  let mantissa := rest.takeWhile fun c => !isExponentMark c
  let exponent := (rest.dropWhile fun c => !isExponentMark c).drop 1
  let hasExponent := rest.any isExponentMark
  let whole ← decimalDigits? (mantissa.takeWhile (· ≠ '.'))
  let fraction ← if mantissa.contains '.' then
      plainDigits? Char.isDigit ((mantissa.dropWhile (· ≠ '.')).drop 1)
    else some []
  let (down, power) ← if hasExponent then do
      let (down, digits) := splitSign exponent
      pure (down, digitsValue 10 (← plainDigits? Char.isDigit digits))
    else some (false, 0)
  if !hasExponent && fraction.isEmpty then none
  else if !negative && exceedsDouble (whole ++ fraction) (if down then 0 else power)
      (fraction.length + if down then power else 0) then none
  else some (.float (String.ofList cs))

/-- A float that is infinite or no number. -/
def specialFloat? (cs : List Char) : Option Toml :=
  let name := (splitSign cs).2
  if name = ['i', 'n', 'f'] ∨ name = ['n', 'a', 'n'] then some (.float (String.ofList cs))
  else none

/-- The number that two digits spell, if it is in a range. -/
def twoDigits? (least greatest : Nat) (a b : Char) : Option Nat := do
  let n := digitsValue 10 [a, b]
  if a.isDigit ∧ b.isDigit ∧ least ≤ n ∧ n ≤ greatest then some n else none

/-- Number of days of a month. -/
def daysInMonth (year month : Nat) : Nat :=
  if month = 2 then
    if year % 4 = 0 ∧ (year % 100 ≠ 0 ∨ year % 400 = 0) then 29 else 28
  else if month = 4 ∨ month = 6 ∨ month = 9 ∨ month = 11 then 30
  else 31

/-- Whether some characters are a date: `year-month-day`. -/
def isDate : List Char → Bool
  | [y1, y2, y3, y4, '-', m1, m2, '-', d1, d2] =>
      [y1, y2, y3, y4].all Char.isDigit &&
        match twoDigits? 1 12 m1 m2 with
        | some month =>
            (twoDigits? 1 (daysInMonth (digitsValue 10 [y1, y2, y3, y4]) month) d1 d2).isSome
        | none => false
  | _ => false

/-- Whether some characters are a time of day: `hour:minute:second`, with or
without a fraction. -/
def isTime : List Char → Bool
  | h1 :: h2 :: ':' :: m1 :: m2 :: ':' :: s1 :: s2 :: fraction =>
      (twoDigits? 0 23 h1 h2).isSome && (twoDigits? 0 59 m1 m2).isSome &&
        (twoDigits? 0 60 s1 s2).isSome &&
        match fraction with
        | [] => true
        | '.' :: digits => !digits.isEmpty && digits.all Char.isDigit
        | _ => false
  | _ => false

/-- Whether some characters are an offset from universal time, or none. -/
def isOffset : List Char → Bool
  | [] => true
  | ['Z'] | ['z'] => true
  | [sign, h1, h2, ':', m1, m2] =>
      (sign == '+' || sign == '-') && (twoDigits? 0 23 h1 h2).isSome &&
        (twoDigits? 0 59 m1 m2).isSome
  | _ => false

/-- Whether some characters are a time of day with or without an offset. -/
def isOffsetTime (cs : List Char) : Bool :=
  let inTime := fun c => c.isDigit || c == ':' || c == '.'
  isTime (cs.takeWhile inTime) && isOffset (cs.dropWhile inTime)

/-- A date, a time, or both with a letter between them. -/
def datetime? (cs : List Char) : Option Toml :=
  let isBoth := isDate (cs.take 10) &&
    ((cs.drop 10).head? == some 'T' || (cs.drop 10).head? == some 't') &&
    isOffsetTime (cs.drop 11)
  if isDate cs || isTime cs || isBoth then some (.datetime (String.ofList cs)) else none

/-- A date and a time with a space between them. -/
def spaced? (date time : List Char) : Option Toml :=
  if isDate date && isOffsetTime time then
    some (.datetime (String.ofList (date ++ ' ' :: time)))
  else none

/-- A boolean. -/
def boolean? (cs : List Char) : Option Toml :=
  if cs = ['t', 'r', 'u', 'e'] then some (.boolean true)
  else if cs = ['f', 'a', 'l', 's', 'e'] then some (.boolean false)
  else none

/-- The value that a run of characters spells. -/
def bare? (cs : List Char) : Option Toml :=
  (boolean? cs).or ((specialFloat? cs).or ((datetime? cs).or ((based? cs).or
    ((decimal? cs).or (float? cs)))))

end Toml

end DeclLint
