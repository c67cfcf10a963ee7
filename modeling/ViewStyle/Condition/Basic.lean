/-
Conditions of selectors. Two conditions are the same if their canonical texts are, so a condition
keeps that text.
-/

import ViewStyle.Condition.Evaluation
import ViewStyle.Condition.Grammar

set_option autoImplicit false

namespace ViewStyle

structure Condition where
  expr : Expr
  canonical : String := expr.canonical
  canonical_eq : canonical = expr.canonical := by rfl

namespace Condition

/-- The condition that some tokens write. -/
def ofTokens (tokens : List Token) : Except ConditionError Condition :=
  (Expr.ofTokens tokens).map fun expr => { expr }

def termCount (c : Condition) : Nat := c.expr.termCount

/-- Holds if both conditions hold. -/
def and (c d : Condition) : Condition := { expr := .and c.expr d.expr }

/-- The value of a condition, which has to be a boolean. -/
def evaluate (c : Condition) (context : Context) : Except EvaluationError Bool := do
  match ← c.expr.evaluate context with
  | .bool value => .ok value
  | other => .error (.notBoolean other.type)

/-- A condition without a value does not hold. -/
def holds (c : Condition) (context : Context) : Bool :=
  match c.evaluate context with
  | .ok value => value
  | .error _ => false

instance : BEq Condition := ⟨fun c d => c.canonical == d.canonical⟩

end Condition

end ViewStyle
