/-!
# Why a text has no declaration tree

A text is refused for a delimiter without a partner, for a construct that is
never closed, or because the structure that came with it is not one.  The first
two point at the byte where the delimiter or construct begins.
-/

namespace DeclLint

/-- A construct that needs a closing delimiter. -/
inductive Construct where
  | blockComment
  | stringLiteral
  | stringInterpolation
deriving DecidableEq, Repr

/-- The name of the construct in error messages. -/
def Construct.label : Construct → String
  | blockComment => "block comment"
  | stringLiteral => "string literal"
  | stringInterpolation => "string interpolation"

/-- Why there is no tree. -/
inductive ParseError where
  | unbalanced (delimiter : Char) (offset : Nat)
  | unterminated (construct : Construct) (offset : Nat)
  | invalidStructure (detail : String)
deriving DecidableEq, Repr

/-- The sentence that reports the error. -/
def ParseError.message : ParseError → String
  | unbalanced delimiter offset => s!"unbalanced '{delimiter}' at byte {offset}"
  | unterminated construct offset =>
      s!"unterminated {construct.label} starting at byte {offset}"
  | invalidStructure detail => s!"invalid structure: {detail}"

end DeclLint
