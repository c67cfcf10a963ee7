/-
Where the faults of a condition show. Whatever a reader of conditions is given, it leaves some of
the tokens, or it fails at the place of one of them. Only if there are no tokens at all, the error
has no place.
-/

import ViewStyle.Condition.Basic
import ViewStyle.Proofs.Condition.Precedence

set_option autoImplicit false

namespace ViewStyle

open Text (Span)

/-- A result as it is wanted, or an error as it may be. -/
def Yields {ε α : Type} (E : ε → Prop) (Q : α → Prop) : Except ε α → Prop
  | .error e => E e
  | .ok a => Q a

section

variable {ε α β : Type} {E : ε → Prop} {Q : α → Prop} {R : β → Prop} {x : Except ε α}

theorem Yields.of_ok (h : Yields E Q x) {a : α} (succeeded : x = .ok a) : Q a := by
  subst succeeded
  exact h

theorem Yields.of_error (h : Yields E Q x) {e : ε} (failed : x = .error e) : E e := by
  subst failed
  exact h

theorem Yields.bind {f : α → Except ε β} (h : Yields E Q x)
    (next : ∀ a, Q a → Yields E R (f a)) : Yields E R (x >>= f) := by
  cases x with
  | error e => exact h
  | ok a => exact next a h

end

/-- All of some tokens stand at places of some kind. -/
def Token.AllAt (P : Span → Prop) (tokens : List Token) : Prop := ∀ token ∈ tokens, P token.span

def ConditionError.At (P : Span → Prop) (e : ConditionError) : Prop :=
  ∃ span, e.span = some span ∧ P span

open Token (AllAt)

variable {P : Span → Prop}

theorem Token.allAt_nil : AllAt P [] := fun _ member => absurd member (List.not_mem_nil)

theorem Token.AllAt.tail {tokens : List Token} (h : AllAt P tokens) : AllAt P tokens.tail :=
  fun token member => h token (List.mem_of_mem_tail member)

namespace Expr

def Locates (P : Span → Prop) (read : Reading → Outcome) : Prop :=
  ∀ s : Reading, AllAt P s.rest →
    Yields (ConditionError.At P) (fun r => AllAt P r.2.rest) (read s)

structure Level.Locates (P : Span → Prop) (level : Level) : Prop where
  disjunction : Expr.Locates P level.disjunction
  inversion : Expr.Locates P level.inversion
  signed : Expr.Locates P level.signed

def Joint.Keeps (joint : Joint) : Prop :=
  ∀ {P : Span → Prop} {tokens rest : List Token} {combine : Expr → Expr → Expr},
    joint tokens = some (combine, rest) → AllAt P tokens → AllAt P rest

private theorem keeps_wordJoint (word : String) (combine : Expr → Expr → Expr) :
    (wordJoint word combine).Keeps := by
  intro P tokens rest combine' joined within
  unfold wordJoint at joined
  split at joined
  · cases joined
    exact within.tail
  · cases joined

private theorem keeps_sumJoint : Joint.Keeps sumJoint := by
  intro P tokens rest combine joined within
  unfold sumJoint at joined
  split at joined
  · cases joined
    exact within.tail
  · cases joined
    exact within.tail
  · split at joined
    · cases joined
      exact within
    · cases joined
  · cases joined

private theorem keeps_productJoint : Joint.Keeps productJoint := by
  intro P tokens rest combine joined within
  unfold productJoint at joined
  split at joined
  · cases joined
    exact within.tail
  · cases joined
    exact within.tail
  · cases joined

private theorem allAt_comparison {tokens rest : List Token} {op : Comparison}
    (compared : comparison? tokens = some (op, rest)) (within : AllAt P tokens) :
    AllAt P rest := by
  unfold comparison? at compared
  split at compared
  · obtain ⟨_, _, same⟩ := Option.map_eq_some_iff.1 compared
    cases same
    exact within.tail
  · cases compared

private theorem allAt_takePath {path : String} {tokens : List Token} (within : AllAt P tokens) :
    AllAt P (takePath path tokens).2 := by
  obtain ⟨used, split, -⟩ := names_takePath path tokens
  intro token member
  refine within token ?_
  rw [split]
  exact List.mem_append_right used member

section

variable {final : Span} (here : P final)

include here

private theorem located_fail {α : Type} {Q : α → Prop} {s : Reading} (within : AllAt P s.rest)
    (fault : ConditionFault) :
    Yields (ConditionError.At P) Q (s.fail (some final) fault : Except ConditionError α) := by
  obtain ⟨rest, spare⟩ := s
  cases rest with
  | nil => exact ⟨final, rfl, here⟩
  | cons token rest => exact ⟨token.span, rfl, within token List.mem_cons_self⟩

private theorem located_spend {s : Reading} (within : AllAt P s.rest) {rest : List Token}
    (after : AllAt P rest) :
    Yields (ConditionError.At P) (fun s' => AllAt P s'.rest) (s.spend (some final) rest) := by
  unfold Reading.spend
  split
  · exact located_fail here within _
  · exact after

private theorem locates_chain {joint : Joint} (keeps : joint.Keeps) {operand : Reading → Outcome}
    (operands : Locates P operand) (limit : Nat) (left : Expr) :
    Locates P (chain (some final) joint operand limit left) := by
  induction limit generalizing left with
  | zero =>
      intro s within
      unfold chain
      split
      · exact within
      · exact located_fail here within _
  | succ limit ih =>
      intro s within
      unfold chain
      split
      · exact within
      · rename_i combine rest joined
        refine (located_spend here within (keeps joined within)).bind fun s' after => ?_
        exact (operands s' after).bind fun right within' => ih _ _ within'

private theorem locates_chained {joint : Joint} (keeps : joint.Keeps) {operand : Reading → Outcome}
    (operands : Locates P operand) : Locates P (chained (some final) joint operand) :=
  fun s within => (operands s within).bind fun _ after =>
    locates_chain here keeps operands _ _ _ after

variable {inner : Option Level} (levels : ∀ level ∈ inner, level.Locates P)

include levels

private theorem locates_primary : Locates P (primary (some final) inner) := by
  intro s within
  unfold primary
  split
  · exact located_fail here within _
  · rename_i token rest from_eq
    have after : AllAt P rest := by
      rw [from_eq] at within
      exact within.tail
    split
    · split
      · exact after
      · exact after
      · exact after
      · exact located_fail here within _
    · exact after
    · split
      · exact located_fail here within _
      · split
        · exact after
        · split
          · exact after
          · exact allAt_takePath after
    · cases inner with
      | none => exact located_fail here within _
      | some level =>
          refine ((levels level rfl).disjunction _ after).bind fun operand within' => ?_
          dsimp only
          split
          · rename_i closed
            rw [closed] at within'
            exact within'.tail
          · exact located_fail here within' _
    · exact located_fail here within _

private theorem locates_inFront (combine : Expr → Expr) {operand : Level → Reading → Outcome}
    (operands : ∀ level ∈ inner, Locates P (operand level)) :
    Locates P (inFront (some final) combine operand inner) := by
  intro s within
  refine (located_spend here within within.tail).bind fun next after => ?_
  cases inner with
  | none => exact located_fail here within _
  | some level => exact (operands level rfl next after).bind fun result within' => within'

private theorem locates_signed : Locates P (signed (some final) inner) := by
  intro s within
  unfold signed
  split
  · exact locates_inFront here levels _ (fun level member => (levels level member).signed) s within
  · exact locates_primary here levels s within

private theorem locates_sum : Locates P (sum (some final) inner) :=
  locates_chained here keeps_sumJoint
    (locates_chained here keeps_productJoint (locates_signed here levels))

private theorem locates_relation : Locates P (relation (some final) inner) := by
  intro s within
  refine (locates_sum here levels s within).bind fun left after => ?_
  dsimp only
  split
  · exact after
  · rename_i op rest compared
    refine (located_spend here after (allAt_comparison compared after)).bind fun next within' => ?_
    refine (locates_sum here levels next within').bind fun right after' => ?_
    split
    · exact after'
    · exact located_fail here after' _

private theorem locates_inversion : Locates P (inversion (some final) inner) := by
  intro s within
  unfold inversion
  split
  · exact locates_inFront here levels _ (fun level member => (levels level member).inversion) s
      within
  · exact locates_relation here levels s within

private theorem locates_disjunction : Locates P (disjunction (some final) inner) :=
  locates_chained here (keeps_wordJoint _ _)
    (locates_chained here (keeps_wordJoint _ _) (locates_inversion here levels))

omit levels in
private theorem locates_level (room : Nat) : (level (some final) room).Locates P := by
  induction room with
  | zero =>
      have levels : ∀ level ∈ (none : Option Level), level.Locates P := nofun
      exact ⟨locates_disjunction here levels, locates_inversion here levels,
        locates_signed here levels⟩
  | succ room ih =>
      have levels : ∀ inner ∈ some (level (some final) room), inner.Locates P := by
        rintro inner ⟨⟩
        exact ih
      exact ⟨locates_disjunction here levels, locates_inversion here levels,
        locates_signed here levels⟩

end

/-- What is wrong with an expression shows at one of its tokens. -/
theorem located_ofTokens {tokens : List Token} (some_token : tokens ≠ [])
    (within : AllAt P tokens) :
    Yields (ConditionError.At P) (fun _ => True) (ofTokens tokens) := by
  have here : P (tokens.getLast some_token).span := within _ (List.getLast_mem some_token)
  rw [ofTokens, List.getLast?_eq_some_getLast some_token]
  refine ((locates_level here nestingLimit).disjunction _ within).bind fun result after => ?_
  dsimp only
  split
  · trivial
  · exact located_fail here after _

end Expr

end ViewStyle
