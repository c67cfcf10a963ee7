/-
Scalars are texts. Where one goes on over several lines, the ends of the lines are folded: one
becomes a space, and of more the first is left out. Separators are not folded.
-/

import ViewStyle.Yaml.Cursor

set_option autoImplicit false

namespace ViewStyle.Yaml

/-- How a scalar is written. -/
inductive Style
  | plain
  | singleQuoted
  | doubleQuoted
  | literal
  | folded
  deriving DecidableEq

def fold (gap : List Char) : List Char :=
  match lineEnds gap with
  | [] => gap
  | ['\n'] => [' ']
  | '\n' :: more => more
  | more => more

def hexDigit? (c : Char) : Option Nat :=
  if c.isDigit then some (c.toNat - 48)
  else if 'a' ≤ c && c ≤ 'f' then some (c.toNat - 87)
  else if 'A' ≤ c && c ≤ 'F' then some (c.toNat - 55)
  else none

def hexNumber? (digits : List Char) : Option Nat :=
  digits.foldlM (fun n c => (hexDigit? c).map (16 * n + ·)) 0

end ViewStyle.Yaml
