import DeclLint.Text.VisibleCharacter

/-!
# Quoted texts

A quoted text shows every character so that it can be told apart: quotes and
backslashes get a backslash, characters that are not visible are spelled by name
or number.

* `quotedText` — one text;
* `quotedTexts` — a list of texts.
-/

namespace DeclLint

/-- A character inside quotes. -/
def quotedChar (c : Char) : String :=
  if c = '"' then "\\\""
  else if c = '\\' then "\\\\"
  else if c.toNat = 0 then "\\0"
  else if c = '\t' then "\\t"
  else if c = '\n' then "\\n"
  else if c = '\r' then "\\r"
  else if isVisible c then c.toString
  else "\\u\x7b" ++ String.ofList (Nat.toDigits 16 c.toNat) ++ "\x7d"

/-- A text in quotes. -/
def quotedText (text : String) : String :=
  "\"" ++ String.join (text.toList.map quotedChar) ++ "\""

/-- A list of texts in quotes. -/
def quotedTexts (texts : List String) : String :=
  "[" ++ ", ".intercalate (texts.map quotedText) ++ "]"

end DeclLint
