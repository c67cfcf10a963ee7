/-
Equality of the values that a view is set to. Two zeros are equal whatever their signs are, and a
value that is no number equals nothing; apart from constraints equality is transitive, so that a
value which is kept because it is equal to another one is kept again.
-/

import ViewStyle.Proofs.Binding.Apply

set_option autoImplicit false

namespace ViewStyle

open Float.Model (UnpackedFloat)

private theorem eq_or_zero_of_compare {a b : UnpackedFloat} (h : a.compare b = some .eq) :
    a = b ∨ (∃ s, a = .zero s) ∧ ∃ s, b = .zero s := by
  cases a with
  | notANumber => cases h
  | zero s =>
      cases b with
      | zero s' => exact .inr ⟨⟨s, rfl⟩, s', rfl⟩
      | infinity s' => cases s' <;> cases h
      | finite s' m e => cases s' <;> cases h
      | notANumber => cases h
  | infinity s =>
      cases b with
      | infinity s' => cases s <;> cases s' <;> first | exact .inl rfl | cases h
      | _ => cases s <;> cases h
  | finite s m e positive =>
      cases b with
      | zero s' => cases s <;> cases h
      | infinity s' => cases s' <;> cases h
      | notANumber => cases h
      | finite s' m' e' =>
          have same : s = s' ∧ e = e' ∧ m = m' := by
            dsimp only [UnpackedFloat.compare] at h
            cases s <;> cases s' <;>
              simp [Ordering.then_eq_eq, Ordering.swap_eq_eq] at h ⊢ <;>
              exact h
          obtain ⟨rfl, rfl, rfl⟩ := same
          exact .inl rfl

private theorem Float.beq_trans {x y z : Float} (first : (x == y) = true)
    (second : (y == z) = true) : (x == z) = true := by
  have first' : x.toModel.unpack.compare y.toModel.unpack = some .eq := eq_of_beq first
  have second' : y.toModel.unpack.compare z.toModel.unpack = some .eq := eq_of_beq second
  have both : x.toModel.unpack.compare z.toModel.unpack = some .eq := by
    rcases eq_or_zero_of_compare first' with same | ⟨⟨s, zero⟩, s', zero'⟩
    · rw [same]
      exact second'
    · rcases eq_or_zero_of_compare second' with same | ⟨-, s'', zero''⟩
      · rw [← same]
        exact first'
      · rw [zero, zero'']
        rfl
  show (x.toModel.unpack.compare z.toModel.unpack == some .eq) = true
  rw [both]
  rfl

private theorem Literal.beq_trans {x y z : Literal} (first : (x == y) = true)
    (second : (y == z) = true) : (x == z) = true := by
  cases x with
  | number x =>
      cases y with
      | number y =>
          cases z with
          | number z => exact Float.beq_trans first second
          | _ => cases second
      | _ => cases first
  | text x =>
      cases y with
      | text y => exact (show x = y from eq_of_beq first) ▸ second
      | _ => cases first
  | color x =>
      cases y with
      | color y => exact (show x = y from eq_of_beq first) ▸ second
      | _ => cases first
  | bool x =>
      cases y with
      | bool y => exact (show x = y from eq_of_beq first) ▸ second
      | _ => cases first

private theorem CustomObject.beq_trans {x y z : CustomObject} (first : (x == y) = true)
    (second : (y == z) = true) : (x == z) = true := by
  obtain ⟨_ | i, x⟩ := x
  · cases first
  · obtain ⟨_ | j, y⟩ := y
    · cases first
    · exact (show i = j from eq_of_beq first) ▸ second

theorem Resolved.isPlain_eq_of_beq {r r' : Resolved} (h : (r == r') = true) :
    r.isPlain = r'.isPlain := by
  cases r with
  | literal value =>
      cases r' with
      | literal value' => rfl
      | _ => cases h
  | constraints list =>
      cases r' with
      | constraints list' => rfl
      | _ => cases h
  | custom object =>
      cases r' with
      | custom object' => rfl
      | _ => cases h

theorem Resolved.beq_trans {x y z : Resolved} (plain : y.isPlain = true) (first : (x == y) = true)
    (second : (y == z) = true) : (x == z) = true := by
  cases y with
  | constraints list => cases plain
  | literal y =>
      cases x with
      | literal x =>
          cases z with
          | literal z => exact Literal.beq_trans first second
          | _ => cases second
      | _ => cases first
  | custom y =>
      cases x with
      | custom x =>
          cases z with
          | custom z => exact CustomObject.beq_trans first second
          | _ => cases second
      | _ => cases first

end ViewStyle
