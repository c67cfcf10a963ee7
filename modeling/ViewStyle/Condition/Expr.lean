/-
Expressions of conditions and their canonical text, in which every operation has its brackets.
-/

import ViewStyle.Condition.Operator
import ViewStyle.Decimal.Notation
import ViewStyle.Text.Quoted

set_option autoImplicit false

namespace ViewStyle

inductive Expr
  | number (value : Float)
  | text (value : String)
  | bool (value : Bool)
  | name (path : String)
  | negate (operand : Expr)
  | not (operand : Expr)
  | and (left right : Expr)
  | or (left right : Expr)
  | compare (op : Comparison) (left right : Expr)
  | arith (op : Arithmetic) (left right : Expr)

namespace Expr

def termCount : Expr → Nat
  | .and left right => left.termCount + right.termCount
  | _ => 1

/-- The canonical text. -/
def canonical : Expr → String
  | .number value => Decimal.positional value
  | .text value => Text.shown value
  | .bool value => if value then "true" else "false"
  | .name path => path
  | .negate operand => "(-" ++ operand.canonical ++ ")"
  | .not operand => "(not " ++ operand.canonical ++ ")"
  | .and left right => "(" ++ left.canonical ++ " and " ++ right.canonical ++ ")"
  | .or left right => "(" ++ left.canonical ++ " or " ++ right.canonical ++ ")"
  | .compare op left right =>
      "(" ++ left.canonical ++ " " ++ op.text ++ " " ++ right.canonical ++ ")"
  | .arith op left right =>
      "(" ++ left.canonical ++ " " ++ op.text ++ " " ++ right.canonical ++ ")"

end Expr

end ViewStyle
