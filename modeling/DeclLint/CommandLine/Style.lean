/-!
# Colours

A terminal shows a text in the style of the codes before it, up to the next
reset.  A text that holds resets itself takes up the style again after each.
-/

namespace DeclLint

/-- A style, as the codes that a terminal knows it by. -/
structure TextStyle where
  codes : String

namespace TextStyle

/-- Heavy letters. -/
def bold : TextStyle := ⟨"1"⟩

/-- Faint letters. -/
def dimmed : TextStyle := ⟨"2"⟩

/-- Red letters. -/
def red : TextStyle := ⟨"31"⟩

/-- Green letters. -/
def green : TextStyle := ⟨"32"⟩

/-- Yellow letters. -/
def yellow : TextStyle := ⟨"33"⟩

/-- Cyan letters. -/
def cyan : TextStyle := ⟨"36"⟩

/-- The style of heavy letters in a colour. -/
def heavy (color : TextStyle) : TextStyle := ⟨s!"1;{color.codes}"⟩

/-- What ends a style. -/
def reset : String := "\x1b[0m"

/-- What begins the style. -/
def start (style : TextStyle) : String := s!"\x1b[{style.codes}m"

/-- A text in the style, unless colours are off. -/
def paint (style : TextStyle) (colored : Bool) (text : String) : String :=
  if colored then style.start ++ text.replace reset (reset ++ style.start) ++ reset
  else text

theorem paint_off (style : TextStyle) (text : String) : style.paint false text = text := rfl

end TextStyle

end DeclLint
