/-
Which decimals are numbers of double precision. A positive number is rounded to 53 binary digits; the
exponent of the last one is 971 at most, so that everything below the middle between the greatest
number and the power of two above it stays finite, and nothing else does.
-/

import Mathlib.Tactic.Positivity
import ViewStyle.Decimal.Numeral
import ViewStyle.Proofs.Decimal.Shortest

set_option autoImplicit false

namespace ViewStyle.Decimal

open Float.Model (UnpackedFloat totalExponent)
open Float.Model.UnpackedFloat (Accuracy ExtendedMantissa Sign roundWithAccuracy)

-- Powers are those of the core library, also where algebra offers those of a monoid.
attribute [local instance (high)] instPowNat

section Shift

variable (em : ExtendedMantissa) (k : Nat)

private theorem mantissa_shift : (em >>> k).mantissa = em.mantissa / 2 ^ k := by
  induction k with
  | zero => simp [HShiftRight.hShiftRight, Nat.repeat]
  | succ k ih =>
      show (em >>> k).mantissa / 2 = em.mantissa / 2 ^ (k + 1)
      rw [ih, Nat.div_div_eq_div_mul, Nat.pow_succ]

private theorem roundBit_shift : (em >>> (k + 1)).roundBit = (em.mantissa / 2 ^ k % 2 != 0) := by
  show ((em >>> k).mantissa % 2 != 0) = _
  rw [mantissa_shift]

private theorem mantissa_ofMantissaAndAccuracy (m : Nat) (accuracy : Accuracy) :
    (ExtendedMantissa.ofMantissaAndAccuracy m accuracy).mantissa = m := by
  cases accuracy with
  | exact => rfl
  | inexact order => cases order <;> rfl

private theorem roundedMantissa_bounds :
    em.mantissa ≤ em.roundedMantissa ∧ em.roundedMantissa ≤ em.mantissa + 1 := by
  obtain ⟨m, round, sticky⟩ := em
  cases round <;> cases sticky <;>
    simp only [ExtendedMantissa.roundedMantissa, ExtendedMantissa.accuracy,
      Accuracy.roundToNearestEven] <;> omega

private theorem roundedMantissa_of_odd (odd : em.mantissa % 2 = 1) :
    em.roundedMantissa = em.mantissa + em.roundBit.toNat := by
  obtain ⟨m, round, sticky⟩ := em
  cases round <;> cases sticky <;>
    simp only [ExtendedMantissa.roundedMantissa, ExtendedMantissa.accuracy,
      Accuracy.roundToNearestEven, Bool.toNat_false, Bool.toNat_true] <;>
    simp only at odd <;> omega

end Shift

private theorem roundedMantissa_shift_bounds (m k : Nat) (accuracy : Accuracy) :
    m / 2 ^ k ≤ (ExtendedMantissa.ofMantissaAndAccuracy m accuracy >>> k).roundedMantissa ∧
      (ExtendedMantissa.ofMantissaAndAccuracy m accuracy >>> k).roundedMantissa ≤ m / 2 ^ k + 1 := by
  have bounds := roundedMantissa_bounds (ExtendedMantissa.ofMantissaAndAccuracy m accuracy >>> k)
  rwa [mantissa_shift, mantissa_ofMantissaAndAccuracy] at bounds

/-- The numbers up to a greatest exponent; those up to 971 can be packed. -/
def Fits (top : Int) : UnpackedFloat → Prop
  | .finite _ _ e _ => e ≤ top
  | .zero _ => True
  | _ => False

private theorem Fits.zero_or_finite {top : Int} {f : UnpackedFloat} (h : Fits top f) :
    (∃ s, f = .zero s) ∨ ∃ s m e positive, f = .finite s m e positive ∧ e ≤ top := by
  cases f with
  | notANumber => cases h
  | infinity s => cases h
  | zero s => exact .inl ⟨s, rfl⟩
  | finite s m e positive => exact .inr ⟨s, m, e, positive, rfl, h⟩

private theorem Fits.mono {top top' : Int} {f : UnpackedFloat} (h : Fits top f) (le : top ≤ top') :
    Fits top' f := by
  cases f with
  | finite s m e positive => exact Int.le_trans h le
  | _ => exact h

private theorem fits_neg_iff {top : Int} {f : UnpackedFloat} : Fits top f.neg ↔ Fits top f := by
  cases f <;> rfl

section Packing

variable {top : Int} {f : UnpackedFloat}

private theorem pack_finite (s : Sign) (m : Nat) (e : Int) (positive : 0 < m) :
    UnpackedFloat.pack .binary64 (.finite s m e positive) =
      if 2047 ≤ (e + 1075).toNat then UnpackedFloat.packedInfinity .binary64 s
      else if m.log2 = 52 then
        UnpackedFloat.packComponents .binary64 s (BitVec.ofNat 11 (e + 1075).toNat) (BitVec.ofNat 52 m)
      else UnpackedFloat.packComponents .binary64 s 0 (BitVec.ofNat 52 m) := by
  have biased : (e + (1023 : Nat) + (52 : Nat)).toNat = (e + 1075).toNat := by omega
  show (if 2047 + 1 ≤ (e + (1023 : Nat) + (52 : Nat)).toNat + 1 then _
    else if m.log2 + 1 = 52 + 1 then UnpackedFloat.packComponents .binary64 s
      (BitVec.ofNat 11 (e + (1023 : Nat) + (52 : Nat)).toNat) (BitVec.ofNat 52 m) else _) = _
  rw [biased]
  simp only [Nat.add_le_add_iff_right, Nat.add_right_cancel_iff]
  rfl

private theorem unpackExponent_pack_le (h : Fits top f) (room : top ≤ 971) :
    (UnpackedFloat.unpackExponent (UnpackedFloat.pack .binary64 f)).toNat ≤ (top + 1075).toNat := by
  have zero_le (s : Sign) (mantissa) : (UnpackedFloat.unpackExponent
      (UnpackedFloat.packComponents .binary64 s 0 mantissa)).toNat ≤ (top + 1075).toNat := by
    rw [UnpackedFloat.unpackExponent_packComponents]
    exact Nat.zero_le _
  cases f with
  | notANumber => cases h
  | infinity s => cases h
  | zero s => exact zero_le s _
  | finite s m e positive =>
      have h : e ≤ top := h
      rw [pack_finite, if_neg (by omega)]
      split
      · rw [UnpackedFloat.unpackExponent_packComponents, BitVec.toNat_ofNat]
        exact (Nat.mod_le _ _).trans (by omega)
      · exact zero_le s _

private theorem unpackExponent_pack_of_not_fits (h : ¬Fits 971 f) :
    UnpackedFloat.unpackExponent (UnpackedFloat.pack .binary64 f) = -1#11 := by
  cases f with
  | notANumber => exact UnpackedFloat.unpackExponent_packComponents
  | infinity s => exact UnpackedFloat.unpackExponent_packComponents
  | zero s => exact absurd trivial h
  | finite s m e positive =>
      have h : ¬e ≤ 971 := h
      rw [pack_finite, if_pos (by omega)]
      exact UnpackedFloat.unpackExponent_packComponents

private theorem bounds_of_unpack {s : Sign} {m : Nat} {e : Int} {positive : 0 < m}
    {bits : BitVec Float.Model.Format.binary64.numBits}
    (h : UnpackedFloat.unpack .binary64 bits = .finite s m e positive) :
    m < 2 ^ 53 ∧ e ≤ max (((UnpackedFloat.unpackExponent bits).toNat : Int) - 1075) (-1074) := by
  unfold UnpackedFloat.unpack at h
  dsimp only at h
  by_cases last : UnpackedFloat.unpackExponent bits = -1#_
  · rw [if_pos last] at h
    by_cases none : UnpackedFloat.unpackMantissa bits = 0#_
    · rw [if_pos none] at h
      cases h
    · rw [if_neg none] at h
      cases h
  rw [if_neg last] at h
  by_cases zero : UnpackedFloat.unpackExponent bits = 0#_
  · rw [if_pos zero] at h
    by_cases none : UnpackedFloat.unpackMantissa bits = 0#_
    · rw [dif_pos none] at h
      cases h
    · rw [dif_neg none, zero] at h
      cases h
      exact ⟨(BitVec.isLt (UnpackedFloat.unpackMantissa bits)).trans (by decide), le_max_right _ _⟩
  · rw [if_neg zero] at h
    cases h
    exact ⟨BitVec.isLt (1#1 ++ UnpackedFloat.unpackMantissa bits), le_max_left _ _⟩

theorem isFinite_unpack_iff (bits : BitVec Float.Model.Format.binary64.numBits) :
    (UnpackedFloat.unpack .binary64 bits).isFinite = true ↔
      UnpackedFloat.unpackExponent bits ≠ -1#11 := by
  unfold UnpackedFloat.unpack
  dsimp only
  by_cases last : UnpackedFloat.unpackExponent bits = -1#_
  · rw [if_pos last]
    refine iff_of_false ?_ fun other => other last
    by_cases none : UnpackedFloat.unpackMantissa bits = 0#_
    · rw [if_pos none]
      nofun
    · rw [if_neg none]
      nofun
  · rw [if_neg last]
    refine iff_of_true ?_ last
    by_cases zero : UnpackedFloat.unpackExponent bits = 0#_
    · rw [if_pos zero]
      by_cases none : UnpackedFloat.unpackMantissa bits = 0#_
      · rw [dif_pos none]
        rfl
      · rw [dif_neg none]
        rfl
    · rw [if_neg zero]
      rfl

private theorem isFinite_unpack_pack_iff :
    (UnpackedFloat.unpack .binary64 (UnpackedFloat.pack .binary64 f)).isFinite = true ↔
      Fits 971 f := by
  rw [isFinite_unpack_iff]
  constructor
  · exact fun other => by_contra fun h => other (unpackExponent_pack_of_not_fits h)
  · intro h last
    have most := unpackExponent_pack_le h le_rfl
    have ones : (-1#11).toNat = 2047 := rfl
    rw [last, ones] at most
    omega

private theorem fits_of_isFinite {bits : BitVec Float.Model.Format.binary64.numBits}
    (h : (UnpackedFloat.unpack .binary64 bits).isFinite = true)
    (most : ((UnpackedFloat.unpackExponent bits).toNat : Int) - 1075 ≤ top) (least : -1074 ≤ top) :
    Fits top (UnpackedFloat.unpack .binary64 bits) := by
  cases found : UnpackedFloat.unpack .binary64 bits with
  | notANumber => rw [found] at h; cases h
  | infinity s => rw [found] at h; cases h
  | zero s => trivial
  | finite s m e positive => exact (bounds_of_unpack found).2.trans (max_le most least)

private theorem fits_unpack_pack (h : Fits top f) (least : -1074 ≤ top) (room : top ≤ 971) :
    Fits top (Float.Model.pack f).unpack := by
  have most := Int.ofNat_le.2 (unpackExponent_pack_le h room)
  refine fits_of_isFinite (isFinite_unpack_pack_iff.2 (h.mono room)) ?_ least
  exact (Int.sub_le_sub_right most 1075).trans (by omega)

private theorem fits_unpack_iff (bits : BitVec Float.Model.Format.binary64.numBits) :
    Fits 971 (UnpackedFloat.unpack .binary64 bits) ↔
      (UnpackedFloat.unpack .binary64 bits).isFinite = true := by
  constructor
  · intro h
    rcases h.zero_or_finite with ⟨s, zero⟩ | ⟨s, m, e, positive, number, -⟩
    · rw [zero]
      rfl
    · rw [number]
      rfl
  · intro h
    refine fits_of_isFinite h ?_ (by decide)
    have other : UnpackedFloat.unpackExponent bits ≠ -1#11 := (isFinite_unpack_iff bits).1 h
    have field := (UnpackedFloat.unpackExponent bits).isLt
    have least : (UnpackedFloat.unpackExponent bits).toNat ≠ 2047 :=
      fun same => other (BitVec.eq_of_toNat_eq same)
    replace field : (UnpackedFloat.unpackExponent bits).toNat < 2048 := field
    omega

end Packing

def excess (m : Nat) (e : Int) : Nat := (max (m.log2 + 1 + e - 53) (-1074) - e).toNat

private theorem div_two_pow_eq_zero_iff {r : Nat} : r / 2 ^ (r.log2 - 52) = 0 ↔ r = 0 := by
  refine ⟨fun none => ?_, fun zero => by rw [zero, Nat.zero_div]⟩
  by_contra nonzero
  have most := Nat.log2_self_le nonzero
  have less : 2 ^ (r.log2 - 52) ≤ 2 ^ r.log2 := Nat.pow_le_pow_right (by decide) (Nat.sub_le _ _)
  exact absurd none (Nat.ne_of_gt (Nat.div_pos (less.trans most) (Nat.two_pow_pos _)))

section Rounded

variable {top : Int} {s : Sign} {m k r : Nat} {e : Int} {accuracy : Accuracy}

private theorem roundWithAccuracy_eq (shift : excess m e = k)
    (rounded : (ExtendedMantissa.ofMantissaAndAccuracy m accuracy >>> k).roundedMantissa = r) :
    roundWithAccuracy .binary64 s m e accuracy =
      if h : r / 2 ^ (r.log2 - 52) = 0 then .zero s
      else .finite s (r / 2 ^ (r.log2 - 52)) (e + k + (r.log2 - 52 : Nat)) (Nat.pos_of_ne_zero h) := by
  have low : -1074 ≤ e + k := by
    rw [← shift, excess]
    omega
  have again : excess r (e + k) = r.log2 - 52 := by
    rw [excess]
    omega
  have first : (Float.Model.Format.binary64.targetExponent (totalExponent m e) - e).toNat = k :=
    shift
  have second : (Float.Model.Format.binary64.targetExponent (totalExponent r (e + k)) -
      (e + k)).toNat = r.log2 - 52 := again
  have shifted : UnpackedFloat.shiftToTargetExponent .binary64 m e accuracy =
      (ExtendedMantissa.ofMantissaAndAccuracy m accuracy >>> k, e + k) := by
    simp only [UnpackedFloat.shiftToTargetExponent, UnpackedFloat.shiftToExponent, first]
  have shifted_again : UnpackedFloat.shiftToTargetExponent .binary64 r (e + k) .exact =
      (ExtendedMantissa.ofMantissaAndAccuracy r .exact >>> (r.log2 - 52),
        e + k + (r.log2 - 52 : Nat)) := by
    simp only [UnpackedFloat.shiftToTargetExponent, UnpackedFloat.shiftToExponent, second]
  unfold roundWithAccuracy
  rw [shifted]
  dsimp only
  rw [rounded, shifted_again]
  dsimp only
  rw [mantissa_shift, mantissa_ofMantissaAndAccuracy]

private theorem fits_roundWithAccuracy_iff (shift : excess m e = k)
    (rounded : (ExtendedMantissa.ofMantissaAndAccuracy m accuracy >>> k).roundedMantissa = r) :
    Fits top (roundWithAccuracy .binary64 s m e accuracy) ↔
      r = 0 ∨ e + k + (r.log2 - 52 : Nat) ≤ top := by
  rw [roundWithAccuracy_eq shift rounded]
  by_cases zero : r = 0
  · rw [dif_pos (div_two_pow_eq_zero_iff.2 zero)]
    exact iff_of_true trivial (.inl zero)
  · rw [dif_neg (mt div_two_pow_eq_zero_iff.1 zero)]
    exact (or_iff_right zero).symm

private theorem fits_of_log2_le (least : -1073 ≤ top) (below : e < top)
    (small : m.log2 + e ≤ 51 + top) : Fits top (roundWithAccuracy .binary64 s m e accuracy) := by
  refine (fits_roundWithAccuracy_iff rfl rfl).2 (.inr ?_)
  generalize shift : excess m e = k
  have bounds := roundedMantissa_shift_bounds m k accuracy
  generalize (ExtendedMantissa.ofMantissaAndAccuracy m accuracy >>> k).roundedMantissa = r at bounds ⊢
  have enough : m.log2 + 1 ≤ 53 + k := by
    rw [excess] at shift
    omega
  have quotient : m / 2 ^ k < 2 ^ 53 := by
    rw [Nat.div_lt_iff_lt_mul (Nat.two_pow_pos k), ← Nat.pow_add]
    exact Nat.lt_of_lt_of_le Nat.lt_log2_self (Nat.pow_le_pow_right (by decide) enough)
  have digits : r.log2 ≤ 53 := by
    have below : r < 2 ^ 54 := by omega
    rcases Nat.eq_zero_or_pos r with rfl | positive
    · decide
    · exact Nat.le_of_lt_succ ((Nat.log2_lt (Nat.ne_of_gt positive)).2 below)
  rw [excess] at shift
  omega

end Rounded

/-- The middle between the greatest number and the power of two above it, in units of
`2 ^ (970 - j)`. It is a tie, and goes up. -/
def threshold (j : Nat) : Nat := (2 ^ 54 - 1) * 2 ^ j

private theorem threshold_add (j k : Nat) : threshold (j + k) = threshold j * 2 ^ k := by
  rw [threshold, threshold, Nat.pow_add, Nat.mul_assoc]

private theorem threshold_pos (j : Nat) : 0 < threshold j :=
  Nat.mul_pos (by decide) (Nat.two_pow_pos j)

private theorem threshold_le_pow {k n : Nat} (h : 29 + 28 * k ≤ n) :
    threshold (40 + 93 * k) ≤ 10 ^ n :=
  calc threshold (40 + 93 * k) = threshold 40 * (2 ^ 93) ^ k := by rw [threshold_add, Nat.pow_mul]
    _ ≤ 10 ^ 29 * (10 ^ 28) ^ k :=
        Nat.mul_le_mul (by decide) (Nat.pow_le_pow_left (by decide) k)
    _ = 10 ^ (29 + 28 * k) := by rw [Nat.pow_add, Nat.pow_mul]
    _ ≤ 10 ^ n := Nat.pow_le_pow_right (by decide) h

section Threshold

variable {s : Sign} {m j : Nat} {accuracy : Accuracy}

private theorem not_fits_of_lt_log2 (great : 54 + j ≤ m.log2) :
    ¬Fits 971 (roundWithAccuracy .binary64 s m (970 - j) accuracy) := by
  rw [fits_roundWithAccuracy_iff rfl rfl]
  generalize shift : excess m (970 - j) = k
  have bounds := roundedMantissa_shift_bounds m k accuracy
  generalize (ExtendedMantissa.ofMantissaAndAccuracy m accuracy >>> k).roundedMantissa = r at bounds ⊢
  have nonzero : m ≠ 0 := by
    rintro rfl
    exact absurd great (by simp)
  have shifted : k = m.log2 - 52 := by
    rw [excess] at shift
    omega
  have quotient : 0 < m / 2 ^ k := by
    refine Nat.div_pos (le_trans ?_ (Nat.log2_self_le nonzero)) (Nat.two_pow_pos k)
    exact Nat.pow_le_pow_right (by decide) (by omega)
  omega

private theorem fits_iff_of_log2_eq (top : m.log2 = 53 + j) :
    Fits 971 (roundWithAccuracy .binary64 s m (970 - j) accuracy) ↔ m / 2 ^ j < 2 ^ 54 - 1 := by
  have shift : excess m (970 - j) = j + 1 := by
    rw [excess]
    omega
  rw [fits_roundWithAccuracy_iff shift rfl]
  generalize short : ExtendedMantissa.ofMantissaAndAccuracy m accuracy >>> (j + 1) = em
  have mantissa : em.mantissa = m / 2 ^ j / 2 := by
    rw [← short, mantissa_shift, mantissa_ofMantissaAndAccuracy, Nat.pow_succ,
      Nat.div_div_eq_div_mul]
  have round : em.roundBit = (m / 2 ^ j % 2 != 0) := by
    rw [← short, roundBit_shift, mantissa_ofMantissaAndAccuracy]
  have bounds := roundedMantissa_bounds em
  have of_odd := roundedMantissa_of_odd em
  have least : 2 ^ 53 ≤ m / 2 ^ j := by
    rw [Nat.le_div_iff_mul_le (Nat.two_pow_pos j), ← Nat.pow_add, ← top]
    exact Nat.log2_self_le fun zero => by simp [zero] at top; omega
  have most : m / 2 ^ j < 2 ^ 54 := by
    rw [Nat.div_lt_iff_lt_mul (Nat.two_pow_pos j), ← Nat.pow_add,
      show 54 + j = m.log2 + 1 by omega]
    exact Nat.lt_log2_self
  generalize m / 2 ^ j = q at mantissa round least most ⊢
  rw [mantissa] at bounds of_odd
  have digits : em.roundedMantissa.log2 ≤ 52 ↔ em.roundedMantissa < 2 ^ 53 := by
    rw [← Nat.lt_succ_iff, Nat.log2_lt (by omega)]
  have exponent : (em.roundedMantissa = 0 ∨
      970 - (j : Int) + ((j + 1 : Nat) : Int) + ((em.roundedMantissa.log2 - 52 : Nat) : Int) ≤ 971) ↔
        em.roundedMantissa < 2 ^ 53 := by
    rw [← digits]
    omega
  rw [exponent]
  by_cases last : q / 2 = 2 ^ 53 - 1
  · rw [of_odd (by rw [last]; rfl), round, last]
    rcases Nat.mod_two_eq_zero_or_one q with even | odd
    · rw [even]
      exact iff_of_true (by decide) (by omega)
    · rw [odd]
      exact iff_of_false (by decide) (by omega)
  · exact iff_of_true (by omega) (by omega)

private theorem fits_iff_lt :
    Fits 971 (roundWithAccuracy .binary64 s m (970 - j) accuracy) ↔ m < threshold j := by
  unfold threshold
  rcases Nat.lt_trichotomy m.log2 (53 + j) with small | top | great
  · refine iff_of_true (fits_of_log2_le (by omega) (by omega) (by omega)) ?_
    calc m < 2 ^ (m.log2 + 1) := Nat.lt_log2_self
      _ ≤ 2 ^ (53 + j) := Nat.pow_le_pow_right (by decide) (by omega)
      _ = 2 ^ 53 * 2 ^ j := Nat.pow_add 2 53 j
      _ ≤ (2 ^ 54 - 1) * 2 ^ j := Nat.mul_le_mul_right _ (by decide)
  · rw [fits_iff_of_log2_eq top, Nat.div_lt_iff_lt_mul (Nat.two_pow_pos j)]
  · refine iff_of_false (not_fits_of_lt_log2 (by omega)) (Nat.not_lt.2 ?_)
    calc (2 ^ 54 - 1) * 2 ^ j ≤ 2 ^ 54 * 2 ^ j := Nat.mul_le_mul_right _ (by decide)
      _ = 2 ^ (54 + j) := (Nat.pow_add 2 54 j).symm
      _ ≤ 2 ^ m.log2 := Nat.pow_le_pow_right (by decide) (by omega)
      _ ≤ m := Nat.log2_self_le fun zero => by simp [zero] at great

end Threshold

section Operations

variable {s₁ s₂ : Sign} {m₁ m₂ b : Nat} {e₁ e₂ : Int} {positive₁ : 0 < m₁} {positive₂ : 0 < m₂}

private theorem fits_mul_iff (h : e₁ + e₂ = 970 - b) :
    Fits 971 (UnpackedFloat.mul .binary64 (.finite s₁ m₁ e₁ positive₁) (.finite s₂ m₂ e₂ positive₂)) ↔
      m₁ * m₂ < threshold b := by
  show Fits 971 (roundWithAccuracy .binary64 (s₁ * s₂) (m₁ * m₂) (e₁ + e₂) .exact) ↔ _
  rw [h, fits_iff_lt]

private theorem fits_div_iff (h : e₁ - e₂ = 970 - b) :
    Fits 971 (UnpackedFloat.div .binary64 (.finite s₁ m₁ e₁ positive₁) (.finite s₂ m₂ e₂ positive₂)) ↔
      m₁ < threshold b * m₂ := by
  show Fits 971 (let (m, e, accuracy) := UnpackedFloat.divCore .binary64 m₁ e₁ m₂ e₂
    roundWithAccuracy .binary64 (s₁ / s₂) m e accuracy) ↔ _
  unfold UnpackedFloat.divCore
  dsimp only
  rw [h]
  generalize at_least : min (970 - (b : Int)) _ = t
  have below : t ≤ 970 - b := at_least ▸ min_le_left _ _
  obtain ⟨a, rfl⟩ : ∃ a : Nat, t = 970 - (b + a : Nat) := ⟨(970 - b - t).toNat, by omega⟩
  have shift : (970 - (b : Int) - (970 - (b + a : Nat))).toNat = a := by omega
  rw [shift, fits_iff_lt, Nat.shiftLeft_eq, Nat.div_lt_iff_lt_mul positive₂, threshold_add,
    Nat.mul_right_comm]
  exact Nat.mul_lt_mul_right (Nat.two_pow_pos a)

end Operations

private theorem fits_ofScientific_iff (m : Nat) (e : Int) :
    Fits 971 (UnpackedFloat.ofScientific .binary64 m e) ↔
      m * 10 ^ e.toNat < threshold 970 * 10 ^ (-e).toNat := by
  unfold UnpackedFloat.ofScientific
  by_cases zero : m = 0
  · rw [dif_pos zero, zero, Nat.zero_mul]
    exact iff_of_true trivial (Nat.mul_pos (threshold_pos _) (Nat.pow_pos (by decide)))
  have positive := Nat.pos_of_ne_zero zero
  rw [dif_neg zero]
  by_cases great : 2048 < e
  · rw [if_pos (by exact great), show (-e).toNat = 0 by omega, Nat.pow_zero, Nat.mul_one]
    refine iff_of_false id (Nat.not_lt.2 ?_)
    exact (threshold_le_pow (k := 10) (by omega)).trans (Nat.le_mul_of_pos_left _ positive)
  rw [if_neg (by exact great)]
  by_cases small : e < -(2048 + (m.log2 : Int))
  · rw [if_pos (by exact small), show e.toNat = 0 by omega, Nat.pow_zero, Nat.mul_one]
    refine iff_of_true trivial ?_
    calc m < 2 ^ (m.log2 + 1) := Nat.lt_log2_self
      _ ≤ 2 ^ (-e).toNat := Nat.pow_le_pow_right (by decide) (by omega)
      _ ≤ 10 ^ (-e).toNat := Nat.pow_le_pow_left (by decide) _
      _ ≤ threshold 970 * 10 ^ (-e).toNat := Nat.le_mul_of_pos_left _ (threshold_pos _)
  rw [if_neg (by exact small)]
  by_cases whole : 0 ≤ e
  · have exponents : -((Float.Model.Format.binary64.mantissaBits : Nat) : Int) + 0 =
        970 - ((970 + 53 : Nat) : Int) := by decide
    have shifted : m <<< Float.Model.Format.binary64.mantissaBits = m * 2 ^ 53 :=
      Nat.shiftLeft_eq m 53
    rw [if_pos whole, show (-e).toNat = 0 by omega, Nat.pow_zero, Nat.mul_one, fits_mul_iff exponents,
      threshold_add, shifted, Nat.mul_right_comm, Nat.mul_lt_mul_right (Nat.two_pow_pos 53)]
  · have exponents : (0 : Int) - 0 = 970 - (970 : Nat) := by decide
    rw [if_neg whole, show e.toNat = 0 by omega, Nat.pow_zero, Nat.mul_one, fits_div_iff exponents]

private theorem lt_threshold {m j : Nat} (h : m < 2 ^ 53) : m < threshold j :=
  calc m < 2 ^ 53 := h
    _ ≤ 2 ^ 54 - 1 := by decide
    _ ≤ threshold j := Nat.le_mul_of_pos_right _ (Nat.two_pow_pos j)

section Native

variable {x y : Float}

private theorem fits_ofUInt64 (n : UInt64) : Fits 12 (UnpackedFloat.ofUInt64 .binary64 n) := by
  show Fits 12 (UnpackedFloat.normalize .binary64 n.toNat 0 .positive)
  unfold UnpackedFloat.normalize
  cases sign : compare (n.toNat : Int) 0 with
  | lt => exact absurd (Int.compare_eq_lt.1 sign) (by omega)
  | eq => trivial
  | gt =>
      have positive : n.toNat ≠ 0 := by
        have := Int.compare_eq_gt.1 sign
        omega
      simp only [UnpackedFloat.round, UnpackedFloat.decreaseExponent, Int.toNat_natCast,
        Nat.shiftLeft_eq]
      generalize (0 - Float.Model.Format.binary64.targetExponent _).toNat = a
      have digits : (n.toNat * 2 ^ a).log2 < 64 + a := by
        rw [Nat.log2_lt (Nat.mul_ne_zero positive (Nat.two_pow_pos a).ne'), Nat.pow_add]
        exact Nat.mul_lt_mul_of_pos_right n.toNat_lt (Nat.two_pow_pos a)
      exact fits_of_log2_le (by decide) (by omega) (by omega)

def isPower : UnpackedFloat → Bool
  | .finite _ _ e _ => decide (-52 ≤ e ∧ e ≤ 52)
  | _ => false

private theorem exists_of_isPower {f : UnpackedFloat} (h : isPower f = true) :
    ∃ s m e positive, f = .finite s m e positive ∧ -52 ≤ e ∧ e ≤ 52 := by
  cases f with
  | finite s m e positive => exact ⟨s, m, e, positive, rfl, of_decide_eq_true h⟩
  | _ => cases h

private theorem isPower_exactlyRepresentable {k : Nat}
    (h : k < Float.exactlyRepresentablePowersOfTen.size) :
    isPower Float.exactlyRepresentablePowersOfTen[k].toModel.unpack = true := by
  have every : Float.exactlyRepresentablePowersOfTen.all (fun x => isPower x.toModel.unpack) =
      true := by decide +kernel
  exact Array.all_eq_true.1 every k h

private theorem isFinite_mul_of_isPower (hx : Fits 12 x.toModel.unpack)
    (hy : isPower y.toModel.unpack = true) : (x * y).isFinite = true := by
  show (UnpackedFloat.unpack .binary64 (UnpackedFloat.pack .binary64
    (UnpackedFloat.mul .binary64 x.toModel.unpack y.toModel.unpack))).isFinite = true
  rw [isFinite_unpack_pack_iff]
  obtain ⟨s', m', e', positive', power, -, small'⟩ := exists_of_isPower hy
  rcases hx.zero_or_finite with ⟨s, zero⟩ | ⟨s, m, e, positive, number, small⟩
  · rw [zero, power]
    trivial
  · obtain ⟨b, exponents⟩ : ∃ b : Nat, e + e' = 970 - (b + 53 : Nat) :=
      ⟨(970 - 53 - (e + e')).toNat, by omega⟩
    rw [number, power, fits_mul_iff exponents, threshold_add]
    exact Nat.mul_lt_mul'' (lt_threshold (bounds_of_unpack number).1) (bounds_of_unpack power).1

private theorem isFinite_div_of_isPower (hx : Fits 12 x.toModel.unpack)
    (hy : isPower y.toModel.unpack = true) : (x / y).isFinite = true := by
  show (UnpackedFloat.unpack .binary64 (UnpackedFloat.pack .binary64
    (UnpackedFloat.div .binary64 x.toModel.unpack y.toModel.unpack))).isFinite = true
  rw [isFinite_unpack_pack_iff]
  obtain ⟨s', m', e', positive', power, small', -⟩ := exists_of_isPower hy
  rcases hx.zero_or_finite with ⟨s, zero⟩ | ⟨s, m, e, positive, number, small⟩
  · rw [zero, power]
    trivial
  · obtain ⟨b, exponents⟩ : ∃ b : Nat, e - e' = 970 - b := ⟨(970 - (e - e')).toNat, by omega⟩
    rw [number, power, fits_div_iff exponents]
    exact (lt_threshold (bounds_of_unpack number).1).trans_le (Nat.le_mul_of_pos_right _ positive')

theorem isFinite_neg (x : Float) : (-x).isFinite = x.isFinite := by
  show (UnpackedFloat.unpack .binary64 (UnpackedFloat.pack .binary64
    x.toModel.unpack.neg)).isFinite = x.toModel.unpack.isFinite
  rw [Bool.eq_iff_iff, isFinite_unpack_pack_iff, fits_neg_iff]
  exact fits_unpack_iff _

private theorem isFinite_ofScientific_iff (m : Nat) (e : Int) :
    (Float.ofScientific m (e < 0) e.natAbs).isFinite = true ↔
      m * 10 ^ e.toNat < threshold 970 * 10 ^ (-e).toNat := by
  unfold Float.ofScientific
  split
  · rename_i short
    have below : m * 10 ^ e.toNat < threshold 970 * 10 ^ (-e).toNat :=
      calc m * 10 ^ e.toNat < threshold 896 * 2 ^ 74 :=
            Nat.mul_lt_mul'' (lt_threshold short.1)
              ((Nat.pow_le_pow_right (by decide) (by omega : e.toNat ≤ 22)).trans_lt (by decide))
        _ = threshold 970 := (threshold_add 896 74).symm
        _ ≤ threshold 970 * 10 ^ (-e).toNat := Nat.le_mul_of_pos_right _ (Nat.pow_pos (by decide))
    refine iff_of_true ?_ below
    have whole : Fits 12 m.toUInt64.toFloat.toModel.unpack :=
      fits_unpack_pack (fits_ofUInt64 _) (by decide) (by decide)
    dsimp only
    split
    · exact isFinite_div_of_isPower whole (isPower_exactlyRepresentable _)
    · exact isFinite_mul_of_isPower whole (isPower_exactlyRepresentable _)
  · have exponent :
        (if decide (e < 0) = true then Int.negOfNat e.natAbs else Int.ofNat e.natAbs) = e := by
      simp only [decide_eq_true_eq, Int.negOfNat_eq, Int.ofNat_eq_natCast]
      split <;> omega
    dsimp only
    rw [exponent]
    exact isFinite_unpack_pack_iff.trans (fits_ofScientific_iff m e)

end Native

private theorem cast_threshold (j : Nat) : (threshold j : ℚ) = (2 ^ 54 - 1) * 2 ^ j := by
  rw [threshold]
  push_cast
  norm_num

private theorem lt_pow_length (n : Nat) : n < 10 ^ length n :=
  (Nat.length_toDigits_le_iff (by decide) Nat.length_toDigits_pos).1 le_rfl

private theorem pow_length_le {n : Nat} (positive : 0 < n) : 10 ^ (length n - 1) ≤ n := by
  rcases Nat.eq_zero_or_pos (length n - 1) with one | more
  · rw [one]
    exact positive
  · refine Nat.not_lt.1 fun less => ?_
    have short : length n ≤ length n - 1 := (Nat.length_toDigits_le_iff (by decide) more).2 less
    omega

namespace Numeral

/-- The numerals of the numbers that are not rounded to infinity. -/
def Bounded : Numeral → Prop
  | .decimal _ digits exponent => Scientific.value ⟨digits, exponent⟩ < (2 ^ 54 - 1) * 2 ^ 970
  | _ => False

private theorem bounded_decimal_iff (negative : Bool) (digits : Nat) (exponent : Int) :
    (decimal negative digits exponent).Bounded ↔
      digits * 10 ^ exponent.toNat < threshold 970 * 10 ^ (-exponent).toNat := by
  show (digits : ℚ) * 10 ^ exponent < (2 ^ 54 - 1) * 2 ^ 970 ↔ _
  rw [← cast_threshold]
  obtain ⟨k, rfl | rfl⟩ := exponent.eq_nat_or_neg
  · rw [Int.toNat_natCast, Int.toNat_neg_natCast, zpow_natCast, Nat.pow_zero, Nat.mul_one]
    exact_mod_cast Iff.rfl
  · rw [neg_neg, Int.toNat_natCast, Int.toNat_neg_natCast, zpow_neg, zpow_natCast, Nat.pow_zero,
      Nat.mul_one, ← div_eq_mul_inv, div_lt_iff₀ (by positivity)]
    exact_mod_cast Iff.rfl

section Magnitude

variable {negative : Bool} {digits : Nat} {exponent : Int}

private theorem bounded_of_small (small : digits = 0 ∨ (length digits : Int) + exponent < -330) :
    (decimal negative digits exponent).Bounded := by
  rw [bounded_decimal_iff]
  rcases small with rfl | small
  · rw [Nat.zero_mul]
    exact Nat.mul_pos (threshold_pos _) (Nat.pow_pos (by decide))
  · rw [show exponent.toNat = 0 by omega, Nat.pow_zero, Nat.mul_one]
    calc digits < 10 ^ length digits := lt_pow_length digits
      _ ≤ 10 ^ (-exponent).toNat := Nat.pow_le_pow_right (by decide) (by omega)
      _ ≤ threshold 970 * 10 ^ (-exponent).toNat := Nat.le_mul_of_pos_left _ (threshold_pos _)

private theorem not_bounded_of_great (nonzero : digits ≠ 0)
    (great : 310 < (length digits : Int) + exponent) :
    ¬(decimal negative digits exponent).Bounded := by
  rw [bounded_decimal_iff, Nat.not_lt]
  obtain ⟨n, enough, digitwise⟩ : ∃ n, 309 ≤ n ∧
      n + (-exponent).toNat = length digits - 1 + exponent.toNat :=
    ⟨length digits - 1 + exponent.toNat - (-exponent).toNat, by omega, by omega⟩
  calc threshold 970 * 10 ^ (-exponent).toNat
      ≤ 10 ^ n * 10 ^ (-exponent).toNat := Nat.mul_le_mul_right _ (threshold_le_pow (k := 10) enough)
    _ = 10 ^ (length digits - 1) * 10 ^ exponent.toNat := by
        rw [← Nat.pow_add, digitwise, Nat.pow_add]
    _ ≤ digits * 10 ^ exponent.toNat :=
        Nat.mul_le_mul_right _ (pow_length_le (Nat.pos_of_ne_zero nonzero))

end Magnitude

/-- A numeral is read as a number if and only if it is below the middle between the greatest number
and the power of two above it. -/
theorem isFinite_toFloat_iff (n : Numeral) : n.toFloat.isFinite = true ↔ n.Bounded := by
  cases n with
  | nan => exact iff_of_false (by decide +kernel) id
  | infinite negative => exact iff_of_false (by cases negative <;> decide +kernel) id
  | decimal negative digits exponent =>
      have sign (x : Float) : (if negative = true then -x else x).isFinite = x.isFinite := by
        cases negative
        · rfl
        · exact isFinite_neg x
      rw [toFloat, sign]
      split
      · rename_i small
        exact iff_of_true (by decide +kernel) (bounded_of_small small)
      · rename_i other
        split
        · rename_i great
          exact iff_of_false (by decide +kernel)
            (not_bounded_of_great (fun zero => other (.inl zero)) great)
        · exact (isFinite_ofScientific_iff digits exponent).trans
            (bounded_decimal_iff negative digits exponent).symm

end Numeral

end ViewStyle.Decimal
