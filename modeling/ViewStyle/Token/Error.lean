/-
What can be wrong with a source text before its tokens mean anything.
-/

import ViewStyle.Text.Position

set_option autoImplicit false

namespace ViewStyle

open Text (Span)

/-- The deepest nesting of brackets in a source text, and of operands in a condition. -/
def nestingLimit : Nat := 128

inductive ScanError
  | unterminatedString (span : Span)
  | unterminatedComment (span : Span)
  | unterminatedBlock (span : Span) (closing : Char)
  | invalidToken (span : Span) (text : String)
  | tooDeep (span : Span)
  deriving DecidableEq

def ScanError.message : ScanError → String
  | .unterminatedString span => s!"unterminated string starting at {span.text}"
  | .unterminatedComment span => s!"unterminated comment starting at {span.text}"
  | .unterminatedBlock span closing =>
      s!"block opened at {span.text} is never closed (expected '{closing}')"
  | .invalidToken span text => s!"invalid token '{text}' at {span.text}"
  | .tooDeep span => s!"blocks nested more than {nestingLimit} levels deep at {span.text}"

end ViewStyle
