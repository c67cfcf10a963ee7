/-
Colors with four channels of eight bits, and their hexadecimal text.
-/

import ViewStyle.Text.Quoted
import ViewStyle.Token.Lexeme

set_option autoImplicit false

namespace ViewStyle

structure Color where
  red : UInt8
  green : UInt8
  blue : UInt8
  alpha : UInt8
  deriving DecidableEq

namespace Color

def channel (high low : Char) : UInt8 :=
  UInt8.ofNat (16 * Lexeme.hexDigit high + Lexeme.hexDigit low)

/-- Reads three, four, six or eight hexadecimal digits. In the short forms each digit stands for
two, and a missing alpha channel is full. -/
def ofHex? (text : String) : Option Color :=
  let digits := text.toList
  if digits.all Lexeme.isHexDigit then
    match digits with
    | [r, g, b] => some ⟨channel r r, channel g g, channel b b, 255⟩
    | [r, g, b, a] => some ⟨channel r r, channel g g, channel b b, channel a a⟩
    | [r, r', g, g', b, b'] => some ⟨channel r r', channel g g', channel b b', 255⟩
    | [r, r', g, g', b, b', a, a'] =>
        some ⟨channel r r', channel g g', channel b b', channel a a'⟩
    | _ => none
  else none

/-- The text of a color: a number sign and eight lower-case digits. -/
def hex (c : Color) : String :=
  let channel (n : UInt8) := Text.paddedHexadecimal 2 n.toNat
  "#" ++ channel c.red ++ channel c.green ++ channel c.blue ++ channel c.alpha

def opacity (c : Color) : Float := Float.ofNat c.alpha.toNat / 255

end Color

end ViewStyle
