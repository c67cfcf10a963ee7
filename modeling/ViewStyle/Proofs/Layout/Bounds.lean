/-
The numbers of equations. A number alone on the right side and a priority are accepted only within
their bounds; a factor and a summand are accepted as long as they are decimals, so that they may be
infinite.
-/

import ViewStyle.Proofs.Decimal.Rounding
import ViewStyle.Proofs.Layout.Equations

set_option autoImplicit false

namespace ViewStyle.Layout

open Decimal (Numeral)

namespace Side

/-- The factor that is written on a right side. -/
def factor? : Side → Option Numeral
  | .number _ => none
  | .linear _ factor _ => factor

/-- The summand that is written on a right side, without its sign. -/
def summand? : Side → Option Numeral
  | .number _ => none
  | .linear _ _ summand => summand.map Prod.snd

private theorem isFinite_multiplier_iff (side : Side) :
    side.multiplier.isFinite = true ↔ ∀ n ∈ side.factor?, n.Bounded := by
  have one : (1 : Float).isFinite = true := by decide +kernel
  cases side with
  | number n => exact iff_of_true one nofun
  | linear second factor summand =>
      cases factor with
      | none => exact iff_of_true one nofun
      | some n => simpa [multiplier, factor?] using n.isFinite_toFloat_iff

private theorem Written.isFinite_constant_iff {side : Side} {cs : List Char} (h : side.Written cs) :
    side.constant.isFinite = true ↔ ∀ n ∈ side.summand?, n.Bounded := by
  have zero : (0 : Float).isFinite = true := by decide +kernel
  cases h with
  | number _ finite => exact iff_of_true finite nofun
  | @linear second factor summand _ _ _ _ _ _ =>
      cases summand with
      | none => exact iff_of_true zero nofun
      | some signed =>
          obtain ⟨negative, n⟩ := signed
          cases negative
          · simpa [constant, summand?] using n.isFinite_toFloat_iff
          · simpa [constant, summand?, Decimal.isFinite_neg] using n.isFinite_toFloat_iff

end Side

private theorem Formula.Written.priority_bounds {f : Formula} {cs : List Char} (h : f.Written cs) :
    1 ≤ f.equation.priority ∧ f.equation.priority ≤ 1000 := by
  obtain ⟨-, -, -, written⟩ := h
  unfold Formula.equation
  generalize f.priority = priority at written
  cases written with
  | absent =>
      show 1 ≤ defaultPriority ∧ defaultPriority ≤ 1000
      exact ⟨by decide +kernel, by decide +kernel⟩
  | present _ low high => exact ⟨low, high⟩

private theorem Formula.Written.exists_side {f : Formula} {cs : List Char} (h : f.Written cs) :
    ∃ side, f.side.Written side := by
  obtain ⟨-, -, written, -⟩ := h
  exact ⟨_, written⟩

private theorem Template.read_eq_equation_iff {raw : String} {e : Equation} :
    Template.read raw = .ok (.equation e) ↔ argument? "constraint-vfl" raw.toList = none ∧
      ∃ text, argument? "constraint" raw.toList = some text ∧ readEquation text = .ok e := by
  unfold Template.read
  constructor
  · intro h
    split at h
    · unfold readVisual at h
      dsimp only at h
      split at h <;> cases h
    · rename_i text other found
      refine ⟨other, text, found, ?_⟩
      cases read : readEquation text with
      | error fault =>
          rw [read] at h
          cases h
      | ok e' =>
          rw [read] at h
          cases h
          rfl
    · cases h
  · rintro ⟨other, text, found, read⟩
    rw [other, found]
    dsimp only
    rw [read]
    rfl

/-- The priority of an equation that is read lies between 1 and 1000. Its multiplier is finite if and
only if there is no factor or one that is bounded, and its constant if and only if there is no summand
or one that is bounded; a number alone is always finite. -/
theorem bounds_of_read {raw : String} {e : Equation} (h : Template.read raw = .ok (.equation e)) :
    (1 ≤ e.priority ∧ e.priority ≤ 1000) ∧
      ∃ (text : List Char) (f : Formula), argument? "constraint" raw.toList = some text ∧
        f.Written (Text.squeeze text) ∧ f.equation = e ∧
          (e.multiplier.isFinite = true ↔ ∀ n ∈ f.side.factor?, n.Bounded) ∧
          (e.constant.isFinite = true ↔ ∀ n ∈ f.side.summand?, n.Bounded) := by
  obtain ⟨-, text, found, read⟩ := Template.read_eq_equation_iff.1 h
  obtain ⟨f, written, rfl⟩ := Formula.exists_of_readEquation read
  obtain ⟨side, of_side⟩ := written.exists_side
  exact ⟨written.priority_bounds, text, f, found, written, rfl, f.side.isFinite_multiplier_iff,
    of_side.isFinite_constant_iff⟩

/-- An equation with all of its numbers, none of which is too great. -/
theorem bounds_of_read_product : ∃ (e : Equation) (f : Formula),
    Template.read "constraint(__self.width >= _a.height * 1.5 - 10, 500)" = .ok (.equation e) ∧
      (1 ≤ e.priority ∧ e.priority ≤ 1000) ∧
      f.Written "__self.width>=_a.height*1.5-10,500".toList ∧ f.equation = e ∧
      (∀ n ∈ f.side.factor?, n.Bounded) ∧ ∀ n ∈ f.side.summand?, n.Bounded := by
  let text := "__self.width >= _a.height * 1.5 - 10, 500".toList
  have computed : ((readEquation text).toOption.map fun e =>
      e.multiplier.isFinite && e.constant.isFinite) = some true := by
    decide +kernel
  obtain ⟨e, found, numbers⟩ := Option.map_eq_some_iff.1 computed
  obtain ⟨multiplier, constant⟩ := Bool.and_eq_true_iff.1 numbers
  have call : argument? "constraint"
      "constraint(__self.width >= _a.height * 1.5 - 10, 500)".toList = some text := by
    decide +kernel
  have read := Template.read_eq_equation_iff.2
    ⟨by decide +kernel, text, call, eq_ok_of_toOption found⟩
  obtain ⟨priority, text', f, same_text, written, same, factor, summand⟩ := bounds_of_read read
  cases call.symm.trans same_text
  have squeezed : Text.squeeze text = "__self.width>=_a.height*1.5-10,500".toList := by
    decide +kernel
  rw [squeezed] at written
  exact ⟨e, f, read, priority, written, same, factor.1 multiplier, summand.1 constant⟩

/-- A factor of so many digits that it is infinite; the same number alone is no right side. -/
theorem read_infinite_multiplier : ∃ (digits : List Char) (e : Equation),
    digits = List.replicate 400 '9' ∧
      Template.read ("constraint(__self.width == __self.height * " ++ String.ofList digits ++ ")") =
        .ok (.equation e) ∧
      e.multiplier.isFinite = false ∧ finiteNumber? digits = none := by
  let digits := List.replicate 400 '9'
  let text := "__self.width == __self.height * ".toList ++ digits
  have computed : ((readEquation text).toOption.map fun e => e.multiplier.isFinite) =
      some false := by
    decide +kernel
  obtain ⟨e, found, infinite⟩ := Option.map_eq_some_iff.1 computed
  have characters : ("constraint(__self.width == __self.height * " ++ String.ofList digits ++
      ")").toList = "constraint(".toList ++ text ++ [')'] := by
    have front : "constraint(__self.width == __self.height * ".toList =
        "constraint(".toList ++ "__self.width == __self.height * ".toList := by decide +kernel
    have factor : (String.ofList digits).toList = digits := String.toList_ofList
    rw [String.toList_append, String.toList_append, front, factor,
      List.append_assoc "constraint(".toList]
    rfl
  refine ⟨digits, e, rfl, Template.read_eq_equation_iff.2 ?_, infinite, by decide +kernel⟩
  rw [characters]
  exact ⟨by decide +kernel, text, by decide +kernel, eq_ok_of_toOption found⟩

end ViewStyle.Layout
