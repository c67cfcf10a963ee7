/-
Why a condition cannot be read, and why it has no value.
-/

import ViewStyle.Token.Basic
import ViewStyle.Token.Error

set_option autoImplicit false

namespace ViewStyle

open Text (Span)

/-- The most operators that one condition may be written with. -/
def operatorLimit : Nat := 256

inductive ConditionFault
  | empty
  | unexpected (kind : Token.Kind)
  | tooDeep
  | tooManyOperators
  | chainedComparison
  | missingOperand
  | unsupportedUnit (unit : String)
  | unexpectedKeyword (word : String)
  | missingBracket
  deriving DecidableEq

def ConditionFault.message : ConditionFault → String
  | .empty => "empty condition"
  | .unexpected kind => s!"unexpected {kind.label}"
  | .tooDeep => s!"nested more than {nestingLimit} levels deep"
  | .tooManyOperators => s!"more than {operatorLimit} operators"
  | .chainedComparison => "comparisons cannot be chained"
  | .missingOperand => "expected a value, found end of condition"
  | .unsupportedUnit unit => s!"unsupported unit '{unit}'"
  | .unexpectedKeyword word => s!"unexpected keyword '{word}'"
  | .missingBracket => "expected ')'"

/-- A fault and the token at which it shows. -/
structure ConditionError where
  fault : ConditionFault
  span : Option Span
  deriving DecidableEq

/-- Operators and types of operands are given as messages name them. -/
inductive EvaluationError
  | divisionByZero
  | typeMismatch (operator left right : String)
  | invalidOperand (operator operand : String)
  | notBoolean (found : String)
  deriving DecidableEq

def EvaluationError.message : EvaluationError → String
  | .divisionByZero => "division by zero"
  | .typeMismatch operator left right =>
      s!"operator '{operator}' cannot be applied to {left} and {right}"
  | .invalidOperand operator operand => s!"operator '{operator}' cannot be applied to {operand}"
  | .notBoolean found => s!"condition evaluated to {found}, expected a boolean"

end ViewStyle
