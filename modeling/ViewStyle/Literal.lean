/-
Values that are known as soon as they are read: numbers, texts, colors and booleans.
-/

import ViewStyle.Color
import ViewStyle.Decimal.Notation
import ViewStyle.Token.Basic

set_option autoImplicit false

namespace ViewStyle

inductive Literal
  | number (value : Float)
  | text (value : String)
  | color (value : Color)
  | bool (value : Bool)
  deriving BEq

namespace Literal

/-- The numbers of a call's arguments: they have no unit, and a comma stands behind each but the
last, where it may stand too. -/
def callNumbers? : List Token → Option (List Float)
  | [] => some []
  | ⟨.number value none _, _, _⟩ :: [] => some [value]
  | ⟨.number value none _, _, _⟩ :: ⟨.punct .comma, _, _⟩ :: rest =>
      (callNumbers? rest).map (value :: ·)
  | _ => none

def colorChannel (x : Float) : UInt8 := UInt8.ofNat ((Decimal.Binary.ofFloat x).nearest 255)

def clampToUnit (x : Float) : Float := if x < 0 then 0 else if 1 < x then 1 else x

def callColor? (arguments : List Token) : Option Color :=
  match callNumbers? arguments with
  | some [r, g, b] => some ⟨colorChannel r, colorChannel g, colorChannel b, 255⟩
  | some [r, g, b, a] =>
      some ⟨colorChannel r, colorChannel g, colorChannel b, colorChannel (clampToUnit a * 255)⟩
  | _ => none

def argumentsOf? (tokens : List Token) : Option (List Token) :=
  match tokens.getLast? with
  | some ⟨.punct (.closing .round), _, _⟩ => some tokens.dropLast
  | _ => none

def colorOfCall? (function : String) (rest : List Token) : Option Color :=
  if Token.spells "rgb" function || Token.spells "rgba" function then
    (argumentsOf? rest).bind callColor?
  else none

def isPoints : Option String → Bool
  | none => true
  | some unit => unit == "px" || unit == "pt"

/-- What some tokens write: a string, a boolean, a number of points or a color. All else is kept
as the text of the tokens. -/
def ofTokens (tokens : List Token) : Literal :=
  let raw := Literal.text (Token.render tokens)
  match tokens with
  | [⟨.string value, _, _⟩] => .text value
  | [⟨.ident "true", _, _⟩] => .bool true
  | [⟨.ident "false", _, _⟩] => .bool false
  | [⟨.number value unit _, _, _⟩] => if isPoints unit then .number value else raw
  | [⟨.hash digits, _, _⟩] => ((Color.ofHex? digits).map color).getD raw
  | ⟨.function name, _, _⟩ :: rest => ((colorOfCall? name rest).map color).getD raw
  | _ => raw

def plainText : Literal → String
  | .number value => Decimal.positional value
  | .text value => value
  | .color value => value.hex
  | .bool value => if value then "true" else "false"

end Literal

end ViewStyle
