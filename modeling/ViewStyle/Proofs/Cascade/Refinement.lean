/-
Selectors of nested blocks. A selector that is refined fits where it did and the further condition
and qualifier do too, and it has a higher rank unless there is nothing new. A conjunction holds
where both conditions hold, also where one of them has no value or one that is no boolean.
-/

import Mathlib.Tactic.ByContra
import ViewStyle.Selector

set_option autoImplicit false

namespace ViewStyle

private theorem Expr.evaluate_and_eq_true {left right : Expr} {c : Context} :
    (Expr.and left right).evaluate c = .ok (.bool true) ↔
      left.evaluate c = .ok (.bool true) ∧ right.evaluate c = .ok (.bool true) := by
  rw [evaluate]
  cases left.evaluate c with
  | error e => exact ⟨nofun, fun h => nomatch h.1⟩
  | ok l =>
      cases l with
      | number value => exact ⟨nofun, fun h => nomatch h.1⟩
      | text value => exact ⟨nofun, fun h => nomatch h.1⟩
      | bool value =>
          cases value with
          | false => exact ⟨nofun, fun h => nomatch h.1⟩
          | true =>
              cases right.evaluate c with
              | error e => exact ⟨nofun, fun h => nomatch h.2⟩
              | ok r =>
                  cases r with
                  | number value => exact ⟨nofun, fun h => nomatch h.2⟩
                  | text value => exact ⟨nofun, fun h => nomatch h.2⟩
                  | bool value => exact ⟨fun h => ⟨rfl, h⟩, fun h => h.2⟩

private theorem Expr.termCount_pos (e : Expr) : 0 < e.termCount := by
  induction e with
  | and left right ih_left ih_right => exact Nat.add_pos_left ih_left _
  | _ => exact Nat.one_pos

namespace Specificity

def raise (a : Specificity) (qualified : Bool) (conditions : Nat) : Specificity :=
  { a with
    qualified := qualified || a.qualified
    conditions := a.conditions + conditions }

variable (a : Specificity) (qualified : Bool) (conditions : Nat)

private theorem le_raise : a.le (a.raise qualified conditions) = true := by
  obtain ⟨traitTag, before, n⟩ := a
  cases qualified <;> cases before <;> simp [le, raise]

private theorem raise_le_eq_false :
    (a.raise qualified conditions).le a = false ↔
      0 < conditions ∨ qualified = true ∧ a.qualified = false := by
  obtain ⟨traitTag, before, n⟩ := a
  cases qualified <;> cases before <;> simp [le, raise]

end Specificity

namespace Condition

private theorem holds_iff {c : Condition} {context : Context} :
    c.holds context = true ↔ c.expr.evaluate context = .ok (.bool true) := by
  rw [holds, evaluate]
  cases c.expr.evaluate context with
  | error e => exact ⟨nofun, nofun⟩
  | ok scalar =>
      cases scalar with
      | bool value =>
          cases value with
          | false => exact ⟨nofun, nofun⟩
          | true => exact ⟨fun _ => rfl, fun _ => rfl⟩
      | _ => exact ⟨nofun, nofun⟩

private theorem holds_and (c d : Condition) (context : Context) :
    (c.and d).holds context = (c.holds context && d.holds context) := by
  rw [Bool.eq_iff_iff, Bool.and_eq_true, holds_iff, holds_iff, holds_iff]
  exact Expr.evaluate_and_eq_true

private theorem termCount_pos (c : Condition) : 0 < c.termCount :=
  c.expr.termCount_pos

end Condition

namespace Selector

def terms (c : Option Condition) : Nat := (c.map Condition.termCount).getD 0

private theorem terms_bothConditions (c d : Option Condition) :
    terms (bothConditions c d) = terms c + terms d := by
  cases c with
  | none => exact (Nat.zero_add _).symm
  | some c =>
      cases d with
      | none => rfl
      | some d => rfl

private theorem terms_pos {c : Option Condition} : 0 < terms c ↔ c.isSome = true := by
  cases c with
  | none => exact ⟨fun h => absurd h (Nat.lt_irrefl 0), nofun⟩
  | some c => exact ⟨fun _ => rfl, fun _ => c.termCount_pos⟩

private theorem all_holds_bothConditions (c d : Option Condition) (context : Context) :
    (bothConditions c d).all (·.holds context) =
      (c.all (·.holds context) && d.all (·.holds context)) := by
  cases c with
  | none => rfl
  | some c =>
      cases d with
      | none => exact (Bool.and_true _).symm
      | some d => exact c.holds_and d context

/-- The selector has another qualifier than the one that is to be added. -/
structure Conflict.Arises (e : Conflict) (s : Selector) (t : Option String) : Prop where
  given : t = some e.new
  present : s.qualifier = some e.old
  differs : e.old ≠ e.new
  selector_eq : e.selector = s.text

private theorem refine_cases (s : Selector) (c : Option Condition) (t : Option String) :
    (∃ e : Conflict, e.Arises s t ∧ s.refine c t = .error e) ∨
      (∀ e : Conflict, ¬e.Arises s t) ∧
        s.refine c t = .ok ⟨s.target, t.or s.qualifier, bothConditions s.condition c⟩ := by
  obtain ⟨target, qualifier, condition⟩ := s
  cases t with
  | none => exact .inr ⟨fun e arises => (nomatch arises.given), rfl⟩
  | some new =>
      cases qualifier with
      | none => exact .inr ⟨fun e arises => (nomatch arises.present), rfl⟩
      | some old =>
          by_cases same : old = new
          · refine .inr ⟨fun e arises => arises.differs ?_, ?_⟩
            · exact (Option.some.inj arises.present).symm.trans
                (same.trans (Option.some.inj arises.given))
            · subst same
              exact if_pos rfl
          · exact .inl ⟨⟨new, old, _⟩, ⟨rfl, rfl, same, rfl⟩, if_neg same⟩

/-- How a selector changes where a further condition and a qualifier have to fit. -/
structure Narrows (s : Selector) (c : Option Condition) (t : Option String) (r : Selector) :
    Prop where
  /-- It fits where the selector, the condition and the qualifier fit. -/
  applies : ∀ context, r.applies context =
    (s.applies context && c.all (·.holds context) && t.all (context.traitTag == some ·))
  /-- The terms of both conditions count. -/
  conditions : r.specificity.conditions = s.specificity.conditions + terms c
  /-- The rank is no lower, and higher if there is a condition or if the qualifier is new. -/
  outranks : s.specificity.le r.specificity = true
  strictly : r.specificity.le s.specificity = false ↔
    c.isSome = true ∨ t.isSome = true ∧ s.qualifier = none

private theorem all_or_qualifier {s : Selector} {t : Option String}
    (free : ∀ e : Conflict, ¬e.Arises s t) (fits : String → Bool) :
    (t.or s.qualifier).all fits = (s.qualifier.all fits && t.all fits) := by
  cases t with
  | none => exact (Bool.and_true _).symm
  | some new =>
      cases present : s.qualifier with
      | none => rfl
      | some old =>
          have same : old = new := by
            by_contra differs
            exact free ⟨new, old, s.text⟩ ⟨rfl, present, differs, rfl⟩
          rw [same]
          exact (Bool.and_self _).symm

private theorem specificity_refined (s : Selector) (c : Option Condition) (t : Option String) :
    (Selector.mk s.target (t.or s.qualifier) (bothConditions s.condition c)).specificity =
      s.specificity.raise t.isSome (terms c) := by
  simp only [specificity, Specificity.raise, Option.isSome_or, Specificity.mk.injEq, true_and]
  exact terms_bothConditions s.condition c

private theorem narrows {s : Selector} {t : Option String} (free : ∀ e : Conflict, ¬e.Arises s t)
    (c : Option Condition) :
    s.Narrows c t ⟨s.target, t.or s.qualifier, bothConditions s.condition c⟩ where
  applies context := by
    simp only [Selector.applies, fits, all_or_qualifier free, all_holds_bothConditions]
    ac_rfl
  conditions := terms_bothConditions s.condition c
  outranks := by
    rw [specificity_refined]
    exact Specificity.le_raise ..
  strictly := by
    rw [specificity_refined, Specificity.raise_le_eq_false]
    show 0 < terms c ∨ t.isSome = true ∧ s.qualifier.isSome = false ↔ _
    rw [terms_pos, Option.isSome_eq_false_iff, Option.isNone_iff_eq_none]

/-- A selector is refined unless it has another qualifier, and what it is refined to fits where both
fit and has a higher rank. A conjunction of conditions holds where both hold. -/
theorem refine_narrows (s : Selector) (c : Option Condition) (t : Option String) :
    (match s.refine c t with
      | .error e => e.Arises s t
      | .ok r => (∀ e : Conflict, ¬e.Arises s t) ∧ s.Narrows c t r) ∧
      ∀ (a b : Condition) (context : Context),
        (a.and b).holds context = (a.holds context && b.holds context) := by
  refine ⟨?_, Condition.holds_and⟩
  obtain ⟨e, arises, refused⟩ | ⟨free, refined⟩ := s.refine_cases c t
  · rw [refused]
    exact arises
  · rw [refined]
    exact ⟨free, narrows free c⟩

end Selector

end ViewStyle
