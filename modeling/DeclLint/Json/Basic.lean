/-!
# JSON values

A value keeps a number as it is spelled and the members of an object in order,
repetitions included, so nothing that a reader may have to refuse is lost.  A
string denotes a text unless one of its escapes is half of a surrogate pair.
-/

namespace DeclLint

/-- The text of a JSON string; a string with an unpaired surrogate escape has
none. -/
abbrev JsonText := Option String

/-- A JSON value. -/
inductive JsonValue where
  | null
  | bool (value : Bool)
  | number (literal : String)
  | string (text : JsonText)
  | array (items : List JsonValue)
  | object (members : List (JsonText × JsonValue))
deriving Repr, Inhabited, BEq

namespace JsonValue

/-- A string that denotes a text. -/
def ofString (s : String) : JsonValue := .string (some s)

/-- A natural number, in decimal. -/
def ofNat (n : Nat) : JsonValue := .number (toString n)

/-- An object whose keys denote texts. -/
def ofMembers (members : List (String × JsonValue)) : JsonValue :=
  .object (members.map fun m => (some m.1, m.2))

end JsonValue

end DeclLint
