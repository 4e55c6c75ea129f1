import DeclLint.Json.Basic

/-!
# Decoding JSON values

A value is decoded by the form that is asked for; any other value is refused.

* `JsonValue.member?` — the value of a member, which may be missing;
* `JsonValue.int64?`, `JsonValue.nat64?` — the integers that numbers spell.
-/

namespace DeclLint

namespace JsonValue

/-- The value of a member.  A member given twice is refused. -/
def member? (key : String) (members : List (JsonText × JsonValue)) : Option (Option JsonValue) :=
  match members.filter fun m => m.1 == some key with
  | [] => some none
  | [m] => some (some m.2)
  | _ => none

/-- A text that may be missing or `null`. -/
def optionalText? : Option JsonValue → Option (Option String)
  | none | some .null => some none
  | some (.string (some s)) => some (some s)
  | some _ => none

/-- The natural number that decimal digits spell. -/
def natOfDigits (cs : List Char) : Nat :=
  cs.foldl (fun n c => n * 10 + (c.toNat - '0'.toNat)) 0

/-- The signed 64-bit integer that a number spells.  A fraction, an exponent or
a negative zero makes it no integer. -/
def int64OfLiteral? (literal : String) : Option Int :=
  match literal.toList with
  | '-' :: digits =>
      let n := natOfDigits digits
      if digits.all Char.isDigit ∧ 0 < n ∧ n ≤ 0x8000000000000000 then some (-(n : Int))
      else none
  | digits =>
      let n := natOfDigits digits
      if digits.all Char.isDigit ∧ n < 0x8000000000000000 then some (n : Int) else none

/-- An integer that may be missing or `null`. -/
def optionalInt? : Option JsonValue → Option (Option Int)
  | none | some .null => some none
  | some (.number literal) => (int64OfLiteral? literal).map some
  | some _ => none

/-- Whether a value is an object. -/
def isObject : JsonValue → Bool
  | .object _ => true
  | _ => false

/-- A signed 64-bit integer. -/
def int64? : JsonValue → Option Int
  | .number literal => int64OfLiteral? literal
  | _ => none

/-- A text. -/
def text? : JsonValue → Option String
  | .string text => text
  | _ => none

/-- The natural number below 2^64 that a number spells. -/
def nat64? : JsonValue → Option Nat
  | .number literal =>
      let n := natOfDigits literal.toList
      if literal.toList.all Char.isDigit ∧ n ≤ 0xFFFFFFFFFFFFFFFF then some n else none
  | _ => none

/-- The items of an array. -/
def items? : JsonValue → Option (List JsonValue)
  | .array items => some items
  | _ => none

/-- A list of values that all have one form. -/
def list? {α : Type} (item? : JsonValue → Option α) (v : JsonValue) : Option (List α) := do
  (← v.items?).mapM item?

end JsonValue

end DeclLint
