/-
The value of an expression in a context. An unknown name stands for itself, as text.
-/

import ViewStyle.Condition.Error
import ViewStyle.Condition.Expr
import ViewStyle.Environment

set_option autoImplicit false

namespace ViewStyle

def compareNumbers? (l r : Float) : Option Ordering :=
  if l < r then some .lt
  else if l == r then some .eq
  else if r < l then some .gt
  else none

/-- Numbers have all comparisons, texts and booleans only those for equality, and scalars of
different types have none. -/
def Comparison.apply (op : Comparison) : Scalar → Scalar → Except EvaluationError Bool
  | .number l, .number r => .ok ((compareNumbers? l r).any op.holds)
  | .text l, .text r =>
      if op.needsNumbers then .error (.typeMismatch op.text "text" "text")
      else .ok (op.holds (compareOfLessAndEq l r))
  | .bool l, .bool r =>
      if op.needsNumbers then .error (.typeMismatch op.text "boolean" "boolean")
      else .ok (op.holds (compareOfLessAndEq l.toNat r.toNat))
  | left, right => .error (.typeMismatch op.text left.type right.type)

def Arithmetic.apply (op : Arithmetic) : Scalar → Scalar → Except EvaluationError Float
  | .number l, .number r =>
      match op.result? l r with
      | some value => .ok value
      | none => .error .divisionByZero
  | left, right => .error (.typeMismatch op.text left.type right.type)

def Scalar.truth (word : String) : Scalar → Except EvaluationError Bool
  | .bool value => .ok value
  | other => .error (.invalidOperand word other.type)

/-- The value of an expression. The right operand of a logical operator is looked at only if the
left one does not decide. -/
def Expr.evaluate (c : Context) : Expr → Except EvaluationError Scalar
  | .number value => .ok (.number value)
  | .text value => .ok (.text value)
  | .bool value => .ok (.bool value)
  | .name path => .ok ((c.lookup path).getD (.text path))
  | .negate operand => do
      match ← operand.evaluate c with
      | .number value => .ok (.number (-value))
      | other => .error (.invalidOperand "-" other.type)
  | .not operand => do
      let value ← (← operand.evaluate c).truth "not"
      return .bool !value
  | .and left right => do
      if ← (← left.evaluate c).truth "and" then
        return .bool (← (← right.evaluate c).truth "and")
      else return .bool false
  | .or left right => do
      if ← (← left.evaluate c).truth "or" then return .bool true
      else return .bool (← (← right.evaluate c).truth "or")
  | .compare op left right => do
      let l ← left.evaluate c
      let r ← right.evaluate c
      return .bool (← op.apply l r)
  | .arith op left right => do
      let l ← left.evaluate c
      let r ← right.evaluate c
      return .number (← op.apply l r)

end ViewStyle
