/-
The size of conditions. A condition that is read from one pair of brackets has a limited number of
operators; one that is put together from several pairs has all their operators, and one more for
each pair but the first.
-/

import Mathlib.Algebra.Order.BigOperators.Group.List
import Mathlib.Algebra.Order.Ring.Nat
import ViewStyle.Proofs.Condition.Precedence
import ViewStyle.Selector

set_option autoImplicit false

namespace ViewStyle

namespace Expr

/-- The number of operators of an expression. -/
def operators : Expr → Nat
  | .number _ => 0
  | .text _ => 0
  | .bool _ => 0
  | .name _ => 0
  | .negate operand => operand.operators + 1
  | .not operand => operand.operators + 1
  | .and left right => left.operators + right.operators + 1
  | .or left right => left.operators + right.operators + 1
  | .compare _ left right => left.operators + right.operators + 1
  | .arith _ left right => left.operators + right.operators + 1

/-- The length of the longest way from the root of an expression to a leaf, both counted. -/
def depth : Expr → Nat
  | .number _ => 1
  | .text _ => 1
  | .bool _ => 1
  | .name _ => 1
  | .negate operand => operand.depth + 1
  | .not operand => operand.depth + 1
  | .and left right => max left.depth right.depth + 1
  | .or left right => max left.depth right.depth + 1
  | .compare _ left right => max left.depth right.depth + 1
  | .arith _ left right => max left.depth right.depth + 1

theorem depth_le (e : Expr) : e.depth ≤ e.operators + 1 := by
  induction e with
  | number => exact Nat.le_refl _
  | text => exact Nat.le_refl _
  | bool => exact Nat.le_refl _
  | name => exact Nat.le_refl _
  | negate operand ih => exact Nat.succ_le_succ ih
  | not operand ih => exact Nat.succ_le_succ ih
  | and left right ih_left ih_right =>
      unfold depth operators
      omega
  | or left right ih_left ih_right =>
      unfold depth operators
      omega
  | compare op left right ih_left ih_right =>
      unfold depth operators
      omega
  | arith op left right ih_left ih_right =>
      unfold depth operators
      omega

private theorem operators_of_links {layer : Layer} {between right : List Token}
    {combine : Expr → Expr → Expr} (links : Links layer between right combine) (l r : Expr) :
    (combine l r).operators = l.operators + r.operators + 1 := by
  cases links <;> rfl

private theorem operators_of_derives {layer : Layer} {tokens : List Token} {e : Expr}
    {count nesting : Nat} (h : Derives layer tokens e count nesting) : e.operators = count := by
  induction h with
  | number => rfl
  | text => rfl
  | bool => rfl
  | name => rfl
  | brackets _ _ _ _ _ ih => exact ih
  | negate _ _ _ ih => exact congrArg (· + 1) ih
  | not _ _ _ _ ih => exact congrArg (· + 1) ih
  | compare _ _ _ _ _ ih_left ih_right => rw [operators, ih_left, ih_right]
  | link _ _ links _ ih_left ih_right => rw [operators_of_links links, ih_left, ih_right]
  | tighter _ _ ih => exact ih

theorem operators_le_of_ofTokens {tokens : List Token} {e : Expr} (h : ofTokens tokens = .ok e) :
    e.operators ≤ operatorLimit := by
  obtain ⟨count, le, nesting, -, derives⟩ := derives_of_ofTokens h
  rwa [operators_of_derives derives]

end Expr

/-- The condition holds if and only if all of some conditions do, each of which is read from a pair
of brackets of its own. There is none if there are no brackets. -/
inductive Assembled : List Expr → Option Condition → Prop
  | none : Assembled [] none
  | bracket {tokens : List Token} {c : Condition} :
      Condition.ofTokens tokens = .ok c → Assembled [c.expr] (some c)
  | both {parts parts' : List Expr} {c c' : Option Condition} : Assembled parts c →
      Assembled parts' c' → Assembled (parts ++ parts') (Selector.bothConditions c c')

namespace Assembled

variable {parts : List Expr} {c : Option Condition}

theorem exists_tokens (h : Assembled parts c) :
    ∀ e ∈ parts, ∃ tokens, Expr.ofTokens tokens = .ok e := by
  induction h with
  | none => exact fun _ member => nomatch member
  | @bracket tokens c read =>
      rw [List.forall_mem_singleton]
      unfold Condition.ofTokens at read
      cases inner : Expr.ofTokens tokens with
      | error e => simp [inner, Except.map] at read
      | ok e =>
          simp only [inner, Except.map, Except.ok.injEq] at read
          exact ⟨tokens, by rw [← read, inner]⟩
  | both _ _ ih ih' => exact List.forall_mem_append.2 ⟨ih, ih'⟩

/-- Every pair of brackets counts with its operators and one more, which for all but one pair is the
operator that joins it to the others. -/
theorem operators_eq (h : Assembled parts c) :
    (parts.map (·.operators + 1)).sum = c.elim 0 (·.expr.operators + 1) := by
  induction h with
  | none => rfl
  | bracket => simp
  | @both parts parts' c c' _ _ ih ih' =>
      rw [List.map_append, List.sum_append, ih, ih']
      cases c with
      | none => cases c' <;> simp [Selector.bothConditions]
      | some c =>
          cases c' with
          | none => rfl
          | some c' =>
              have joined : (c.and c').expr.operators = c.expr.operators + c'.expr.operators + 1 :=
                rfl
              simp only [Selector.bothConditions, Option.elim_some, joined]
              omega

end Assembled

theorem Assembled.operators_le {parts : List Expr} {c : Condition} (h : Assembled parts (some c)) :
    c.expr.operators + 1 ≤ parts.length * (operatorLimit + 1) := by
  have total : (parts.map (·.operators + 1)).sum = c.expr.operators + 1 := h.operators_eq
  have each : ∀ n ∈ parts.map (·.operators + 1), n ≤ operatorLimit + 1 := by
    intro n member
    obtain ⟨e, e_mem, rfl⟩ := List.mem_map.1 member
    obtain ⟨tokens, read⟩ := h.exists_tokens e e_mem
    exact Nat.succ_le_succ (Expr.operators_le_of_ofTokens read)
  rw [← total]
  simpa using List.sum_le_card_nsmul _ _ each

end ViewStyle
