/-
Variables stand for tokens with all their groups, so that an expansion has as many open groups
everywhere as the tokens that were written.
-/

import ViewStyle.Proofs.Condition.Precedence
import ViewStyle.Proofs.Stylesheet.Groups
import ViewStyle.Proofs.Stylesheet.Outline

set_option autoImplicit false

namespace ViewStyle

open Token (Neutral depthThrough)

namespace Outline

theorem expand_cons (definitions : Definitions) (token : Token) (rest : List Token) :
    expand definitions (token :: rest) =
      (replacement definitions token).bind fun first =>
        (expand definitions rest).map fun others => first ++ others := by
  unfold expand
  rw [List.mapM_cons]
  cases replacement definitions token with
  | none => rfl
  | some first =>
      cases rest.mapM (replacement definitions) with
      | none => rfl
      | some others => rfl

def Definitions.Neutral (definitions : Definitions) : Prop :=
  ∀ name tokens, definitions.lookup name = some tokens → Token.Neutral tokens

private theorem depthThrough_replacement {definitions : Definitions} (neutral : definitions.Neutral)
    {token : Token} {tokens : List Token} (h : replacement definitions token = some tokens)
    (depth : Nat) : depthThrough tokens depth = Token.depthAfter token.kind depth := by
  unfold replacement at h
  split at h
  · rename_i name kind
    obtain ⟨definition, found, rfl⟩ := Option.map_eq_some_iff.1 h
    rw [kind]
    cases definition with
    | nil => rfl
    | cons first rest => exact neutral name _ found depth
  · cases h
    rfl

theorem depthThrough_expand {definitions : Definitions} (neutral : definitions.Neutral)
    {tokens expanded : List Token} (h : expand definitions tokens = some expanded) (depth : Nat) :
    depthThrough expanded depth = depthThrough tokens depth := by
  induction tokens generalizing expanded depth with
  | nil =>
      cases h
      rfl
  | cons token rest ih =>
      rw [expand_cons] at h
      obtain ⟨first, replaced, h⟩ := Option.bind_eq_some_iff.1 h
      obtain ⟨others, rest_eq, rfl⟩ := Option.map_eq_some_iff.1 h
      rw [Token.depthThrough_append, depthThrough_replacement neutral replaced, ih rest_eq,
        Token.depthThrough_cons]

private theorem mem_expand {definitions : Definitions} {tokens expanded : List Token}
    (h : expand definitions tokens = some expanded) {token : Token} (member : token ∈ tokens)
    (itself : replacement definitions token = some [token]) : token ∈ expanded := by
  induction tokens generalizing expanded with
  | nil => cases member
  | cons first rest ih =>
      rw [expand_cons] at h
      obtain ⟨tokens, replaced, h⟩ := Option.bind_eq_some_iff.1 h
      obtain ⟨others, rest_eq, rfl⟩ := Option.map_eq_some_iff.1 h
      rcases List.mem_cons.1 member with rfl | member
      · rw [itself] at replaced
        cases replaced
        exact List.mem_append_left _ List.mem_cons_self
      · exact List.mem_append_right _ (ih rest_eq member)

theorem closed_of_condition {definitions : Definitions} (neutral : definitions.Neutral)
    {tokens : List Token} {c : Condition} (h : condition definitions tokens = some c) :
    depthThrough tokens 0 = 0 ∧ ∀ token ∈ tokens, token.kind ≠ .punct (.closing .square) := by
  obtain ⟨expanded, expand_eq, h⟩ := Option.bind_eq_some_iff.1 h
  have reads := Condition.reads_of_ofTokens (eq_ok_of_toOption h)
  refine ⟨?_, fun token member square => ?_⟩
  · rw [← depthThrough_expand neutral expand_eq]
    exact reads.grouped.neutral 0
  · have itself : replacement definitions token = some [token] := by
      rw [replacement, square]
    exact reads.closing_square_ne token (mem_expand expand_eq member itself) square

end Outline

end ViewStyle
