import DeclLint.Json.Basic

/-!
# Writing JSON

A string escapes its quotes, backslashes and the characters below U+0020, and
nothing else.  A value is written on one line, or with one item or member a line
and two spaces of indentation a level.

* `JsonValue.compact` — on one line;
* `JsonValue.pretty` — over several lines;
* `escape_append` — a concatenation is escaped piece by piece.
-/

namespace DeclLint

namespace JsonValue

/-- The digit of a number below 16. -/
def hexDigit (n : Nat) : Char := (Nat.digitChar n)

/-- The escaped form of one character. -/
def escapeChar (c : Char) : List Char :=
  if c = '"' then ['\\', '"']
  else if c = '\\' then ['\\', '\\']
  else if c = '\x08' then ['\\', 'b']
  else if c = '\x0c' then ['\\', 'f']
  else if c = '\n' then ['\\', 'n']
  else if c = '\r' then ['\\', 'r']
  else if c = '\t' then ['\\', 't']
  else if c.toNat < 0x20 then
    ['\\', 'u', '0', '0', hexDigit (c.toNat / 16), hexDigit (c.toNat % 16)]
  else [c]

/-- The escaped form of some characters. -/
def escape (cs : List Char) : List Char := cs.flatMap escapeChar

/-- A concatenation is escaped piece by piece. -/
theorem escape_append (xs ys : List Char) : escape (xs ++ ys) = escape xs ++ escape ys := by
  simp [escape]

/-- A string in quotes.  One that denotes no text is never written. -/
def quoted : JsonText → String
  | some s => "\"" ++ String.ofList (escape s.toList) ++ "\""
  | none => "\"\""

mutual

/-- The value on one line. -/
def compact : JsonValue → String
  | .null => "null"
  | .bool value => if value then "true" else "false"
  | .number literal => literal
  | .string text => quoted text
  | .array items => "[" ++ compactItems items ++ "]"
  | .object members => "\x7b" ++ compactMembers members ++ "\x7d"

/-- Items on one line, with commas between them. -/
def compactItems : List JsonValue → String
  | [] => ""
  | [item] => compact item
  | item :: next :: items => compact item ++ "," ++ compactItems (next :: items)

/-- Members on one line, with commas between them. -/
def compactMembers : List (JsonText × JsonValue) → String
  | [] => ""
  | [(key, value)] => quoted key ++ ":" ++ compact value
  | (key, value) :: next :: members =>
      quoted key ++ ":" ++ compact value ++ "," ++ compactMembers (next :: members)

end

/-- A line break and the indentation of a level. -/
def newLine (level : Nat) : String := "\n" ++ String.ofList (List.replicate (2 * level) ' ')

mutual

/-- The value over several lines, its first line at a level. -/
def prettyAt (level : Nat) : JsonValue → String
  | .null => "null"
  | .bool value => if value then "true" else "false"
  | .number literal => literal
  | .string text => quoted text
  | .array [] => "[]"
  | .array (item :: items) =>
      "[" ++ newLine (level + 1) ++ prettyItems (level + 1) (item :: items) ++ newLine level ++ "]"
  | .object [] => "\x7b\x7d"
  | .object (member :: members) =>
      "\x7b" ++ newLine (level + 1) ++ prettyMembers (level + 1) (member :: members) ++
        newLine level ++ "\x7d"

/-- Items, one a line. -/
def prettyItems (level : Nat) : List JsonValue → String
  | [] => ""
  | [item] => prettyAt level item
  | item :: next :: items =>
      prettyAt level item ++ "," ++ newLine level ++ prettyItems level (next :: items)

/-- Members, one a line. -/
def prettyMembers (level : Nat) : List (JsonText × JsonValue) → String
  | [] => ""
  | [(key, value)] => quoted key ++ ": " ++ prettyAt level value
  | (key, value) :: next :: members =>
      quoted key ++ ": " ++ prettyAt level value ++ "," ++ newLine level ++
        prettyMembers level (next :: members)

end

/-- The value over several lines. -/
def pretty (v : JsonValue) : String := prettyAt 0 v

end JsonValue

end DeclLint
