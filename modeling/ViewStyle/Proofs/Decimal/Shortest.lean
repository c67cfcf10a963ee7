/-
The shortest decimal of a binary number rounds to that number and to no other one: the intervals of
two numbers of a format have nothing in common.
-/

import Mathlib.Algebra.Order.Field.Power
import Mathlib.Algebra.Order.Field.Rat
import Mathlib.Data.Rat.Cast.Order
import Mathlib.Tactic.FieldSimp
import Mathlib.Tactic.Linarith
import Mathlib.Tactic.LinearCombination
import Mathlib.Tactic.Positivity
import Mathlib.Tactic.Ring
import ViewStyle.Decimal.Shortest

set_option autoImplicit false

namespace ViewStyle.Decimal

private theorem pow_toNat {b : ℚ} (h : b ≠ 0) (k : Int) :
    b ^ k.toNat = b ^ k * b ^ (-k).toNat := by
  rcases le_total 0 k with nonneg | nonpos
  · have zero : (-k).toNat = 0 := by omega
    rw [zero, pow_zero, mul_one, ← zpow_natCast, Int.toNat_of_nonneg nonneg]
  · have zero : k.toNat = 0 := by omega
    have flip : ((-k).toNat : Int) = -k := Int.toNat_of_nonneg (by omega)
    rw [zero, pow_zero, ← zpow_natCast b (-k).toNat, flip, ← zpow_add₀ h]
    simp

def Scientific.value (d : Scientific) : ℚ := d.digits * 10 ^ d.exponent

private theorem Scientific.value_strip (d : Scientific) : d.strip.value = d.value := by
  fun_induction Scientific.strip d with
  | case1 d h ih =>
      have digits : d.digits = d.digits / 10 * 10 := by omega
      have cast : (d.digits : ℚ) = (d.digits / 10 : Nat) * 10 := by exact_mod_cast digits
      rw [ih, value, value, cast, zpow_add_one₀ (by norm_num)]
      ring
  | case2 => rfl

def Interval.Mem (i : Interval) (v : ℚ) : Prop :=
  if i.closed then (i.low : ℚ) ≤ v * i.denominator ∧ v * i.denominator ≤ i.high
  else (i.low : ℚ) < v * i.denominator ∧ v * i.denominator < i.high

private theorem Interval.contains_iff (i : Interval) (place : Int) (candidate : Nat) :
    i.contains (10 ^ (-place).toNat) (i.denominator * 10 ^ place.toNat) candidate = true ↔
      i.Mem (candidate * 10 ^ place) := by
  have positive : (0 : ℚ) < 10 ^ (-place).toNat := by positivity
  have scaled : (candidate * (i.denominator * 10 ^ place.toNat) : ℚ) =
      candidate * 10 ^ place * i.denominator * 10 ^ (-place).toNat := by
    rw [pow_toNat (by norm_num) place]
    ring
  unfold contains Mem
  split
  · rw [Bool.and_eq_true, decide_eq_true_iff, decide_eq_true_iff,
      ← mul_le_mul_iff_of_pos_right positive, ← scaled,
      ← mul_le_mul_iff_of_pos_right (b := _ * _ * (i.denominator : ℚ)) positive, ← scaled]
    norm_cast
  · rw [Bool.and_eq_true, decide_eq_true_iff, decide_eq_true_iff,
      ← mul_lt_mul_iff_of_pos_right positive, ← scaled,
      ← mul_lt_mul_iff_of_pos_right (b := _ * _ * (i.denominator : ℚ)) positive, ← scaled]
    norm_cast

private theorem Interval.mem_of_pick {i : Interval} {tie : Tie} {digits : Nat} {d : Scientific}
    (h : i.pick tie digits = some d) : i.Mem d.value := by
  unfold pick at h
  dsimp only at h
  split at h
  · cases h
  · rename_i lower _
    cases h
    exact (i.contains_iff _ _).1 lower
  · rename_i upper
    cases h
    exact (i.contains_iff _ _).1 upper
  · rename_i lower upper
    cases h
    cases tie with
    | up =>
        dsimp only
        split
        · exact (i.contains_iff _ _).1 upper
        · exact (i.contains_iff _ _).1 lower
    | even =>
        dsimp only
        split
        · exact (i.contains_iff _ _).1 upper
        · exact (i.contains_iff _ _).1 lower

def Format.reach (f : Format) (m : Nat) (e : Int) : Nat :=
  if m = 2 ^ (f.precision - 1) ∧ e ≠ f.leastExponent then 1 else 2

variable {f : Format} {m m' : Nat} {e e' : Int} {v : ℚ}

private theorem Interval.mem_around : (Interval.around f m e).Mem v ↔
    if m % 2 = 0 then
      ((4 * m - f.reach m e : Nat) : ℚ) * 2 ^ (e - 2) ≤ v ∧ v ≤ (4 * m + 2 : Nat) * 2 ^ (e - 2)
    else
      ((4 * m - f.reach m e : Nat) : ℚ) * 2 ^ (e - 2) < v ∧ v < (4 * m + 2 : Nat) * 2 ^ (e - 2) := by
  have positive : (0 : ℚ) < 2 ^ (2 - e).toNat := by positivity
  have scale : (2 : ℚ) ^ (e - 2).toNat = 2 ^ (e - 2) * 2 ^ (2 - e).toNat := by
    rw [pow_toNat (by norm_num) (e - 2), neg_sub]
  have low : (((4 * m - f.reach m e) * 2 ^ (e - 2).toNat : Nat) : ℚ) =
      (4 * m - f.reach m e : Nat) * 2 ^ (e - 2) * 2 ^ (2 - e).toNat := by
    rw [Nat.cast_mul, Nat.cast_pow, Nat.cast_ofNat, scale, mul_assoc]
  have high : (((4 * m + 2) * 2 ^ (e - 2).toNat : Nat) : ℚ) =
      (4 * m + 2 : Nat) * 2 ^ (e - 2) * 2 ^ (2 - e).toNat := by
    rw [Nat.cast_mul, Nat.cast_pow, Nat.cast_ofNat, scale, mul_assoc]
  have denominator : ((2 ^ (2 - e).toNat : Nat) : ℚ) = 2 ^ (2 - e).toNat := by
    rw [Nat.cast_pow, Nat.cast_ofNat]
  show (if (m % 2 == 0) = true then
      (((4 * m - f.reach m e) * 2 ^ (e - 2).toNat : Nat) : ℚ) ≤ v * (2 ^ (2 - e).toNat : Nat) ∧
        v * (2 ^ (2 - e).toNat : Nat) ≤ ((4 * m + 2) * 2 ^ (e - 2).toNat : Nat)
    else
      (((4 * m - f.reach m e) * 2 ^ (e - 2).toNat : Nat) : ℚ) < v * (2 ^ (2 - e).toNat : Nat) ∧
        v * (2 ^ (2 - e).toNat : Nat) < ((4 * m + 2) * 2 ^ (e - 2).toNat : Nat)) ↔ _
  rw [low, high, denominator, mul_le_mul_iff_of_pos_right positive,
    mul_le_mul_iff_of_pos_right positive, mul_lt_mul_iff_of_pos_right positive,
    mul_lt_mul_iff_of_pos_right positive]
  simp only [beq_iff_eq]

private theorem Interval.le_of_mem_around (h : (Interval.around f m e).Mem v) :
    ((4 * m - f.reach m e : Nat) : ℚ) * 2 ^ (e - 2) ≤ v ∧ v ≤ (4 * m + 2 : Nat) * 2 ^ (e - 2) := by
  rw [mem_around] at h
  split at h
  · exact h
  · exact ⟨h.1.le, h.2.le⟩

private theorem Interval.lt_of_mem_around (odd : m % 2 = 1) (h : (Interval.around f m e).Mem v) :
    ((4 * m - f.reach m e : Nat) : ℚ) * 2 ^ (e - 2) < v ∧ v < (4 * m + 2 : Nat) * 2 ^ (e - 2) := by
  rw [mem_around, if_neg (by omega)] at h
  exact h

private theorem Interval.self_mem_around (nonzero : m ≠ 0) :
    (Interval.around f m e).Mem (m * 2 ^ e) := by
  have quarters : (m * 2 ^ e : ℚ) = (4 * m : Nat) * 2 ^ (e - 2) := by
    rw [zpow_sub₀ (by norm_num)]
    push_cast
    ring
  have reach : 1 ≤ f.reach m e := by
    unfold Format.reach
    split <;> omega
  have positive : (0 : ℚ) < 2 ^ (e - 2) := by positivity
  have below : ((4 * m - f.reach m e : Nat) : ℚ) * 2 ^ (e - 2) < m * 2 ^ e := by
    rw [quarters, mul_lt_mul_iff_of_pos_right positive, Nat.cast_lt]
    omega
  have above : (m * 2 ^ e : ℚ) < (4 * m + 2 : Nat) * 2 ^ (e - 2) := by
    rw [quarters, mul_lt_mul_iff_of_pos_right positive, Nat.cast_lt]
    omega
  rw [mem_around]
  split
  · exact ⟨below.le, above.le⟩
  · exact ⟨below, above⟩

theorem shortest_mem_around (tie : Tie) (nonzero : m ≠ 0) :
    (Interval.around f m e).Mem (shortest f tie m e).value := by
  unfold shortest
  dsimp only
  rw [Scientific.value_strip]
  cases found : (List.range' 1 17).findSome? ((Interval.around f m e).pick tie) with
  | some d =>
      obtain ⟨digits, -, picked⟩ := List.exists_of_findSome?_eq_some found
      exact Interval.mem_of_pick picked
  | none =>
      have exact_eq : (⟨m * 2 ^ e.toNat * 5 ^ (-e).toNat, min e 0⟩ : Scientific).value =
          m * 2 ^ e := by
        have five : (5 : ℚ) ^ (-e).toNat * 10 ^ min e 0 * 2 ^ (-e).toNat = 1 := by
          have least : min e 0 = -((-e).toNat : Int) := by omega
          have ten : (10 : ℚ) ^ (-e).toNat = 5 ^ (-e).toNat * 2 ^ (-e).toNat := by
            rw [← mul_pow]
            norm_num
          rw [least, zpow_neg, zpow_natCast, ten]
          field_simp
        rw [Scientific.value]
        push_cast
        rw [pow_toNat (by norm_num) e]
        linear_combination (m * 2 ^ e : ℚ) * five
      rw [Option.getD_none, exact_eq]
      exact Interval.self_mem_around nonzero

/-- The significand and the exponent are those of a number of the format. -/
structure Format.Holds (f : Format) (m : Nat) (e : Int) : Prop where
  leastExponent_le : f.leastExponent ≤ e
  lt : m < 2 ^ f.precision
  le_of_lt : f.leastExponent < e → 2 ^ (f.precision - 1) ≤ m

theorem Format.Holds.exponent_of_zero (h : f.Holds 0 e) : e = f.leastExponent := by
  by_contra other
  have normal := h.le_of_lt (lt_of_le_of_ne h.leastExponent_le fun equal => other equal.symm)
  exact absurd normal (Nat.not_le.2 (Nat.two_pow_pos _))

private theorem Format.reach_le (positive : 0 < f.precision) (h : f.Holds m e) (h' : f.Holds m' e')
    (less : e < e') :
    4 * m + 2 ≤ 2 * (4 * m' - f.reach m' e') ∧
      (m % 2 = 1 ∨ 4 * m + 2 < 2 * (4 * m' - f.reach m' e')) := by
  have above : f.leastExponent < e' := lt_of_le_of_lt h.leastExponent_le less
  have double : 2 ^ f.precision = 2 * 2 ^ (f.precision - 1) := by
    rw [← Nat.pow_succ']
    congr 1
    omega
  have lt := h.lt
  have le := h'.le_of_lt above
  have one : 1 ≤ 2 ^ (f.precision - 1) := Nat.one_le_two_pow
  unfold reach
  split
  · rename_i least
    omega
  · rename_i other
    have distinct : m' ≠ 2 ^ (f.precision - 1) := fun equal => other ⟨equal, above.ne'⟩
    omega

private theorem Interval.lt_of_mem_around_of_lt {v' : ℚ} (positive : 0 < f.precision)
    (h : f.Holds m e) (h' : f.Holds m' e') (less : e < e' ∨ e = e' ∧ m < m')
    (hv : (around f m e).Mem v) (hv' : (around f m' e').Mem v') : v < v' := by
  have upper := (le_of_mem_around hv).2
  have lower := (le_of_mem_around hv').1
  have unit : (0 : ℚ) < 2 ^ (e - 2) := by positivity
  rcases less with less | ⟨rfl, less⟩
  · obtain ⟨touch, apart⟩ := Format.reach_le positive h h' less
    have step : (2 : ℚ) * 2 ^ (e - 2) ≤ 2 ^ (e' - 2) := by
      rw [← zpow_one_add₀ (by norm_num)]
      exact zpow_le_zpow_right₀ (by norm_num) (by omega)
    have between : ((2 * (4 * m' - f.reach m' e') : Nat) : ℚ) * 2 ^ (e - 2) ≤
        (4 * m' - f.reach m' e' : Nat) * 2 ^ (e' - 2) := by
      rw [Nat.cast_mul, Nat.cast_ofNat, mul_comm (2 : ℚ), mul_assoc]
      exact mul_le_mul_of_nonneg_left step (Nat.cast_nonneg _)
    have ends : ((4 * m + 2 : Nat) : ℚ) * 2 ^ (e - 2) ≤
        (2 * (4 * m' - f.reach m' e') : Nat) * 2 ^ (e - 2) :=
      mul_le_mul_of_nonneg_right (Nat.cast_le.2 touch) unit.le
    rcases apart with odd | apart
    · linarith [(lt_of_mem_around odd hv).2]
    · linarith [mul_lt_mul_of_pos_right (Nat.cast_lt (α := ℚ).2 apart) unit]
  · have reach : f.reach m' e ≤ 2 := by
      unfold Format.reach
      split <;> omega
    have touch : 4 * m + 2 ≤ 4 * m' - f.reach m' e := by omega
    have ends : ((4 * m + 2 : Nat) : ℚ) * 2 ^ (e - 2) ≤
        (4 * m' - f.reach m' e : Nat) * 2 ^ (e - 2) :=
      mul_le_mul_of_nonneg_right (Nat.cast_le.2 touch) unit.le
    by_cases odd : m % 2 = 1
    · linarith [(lt_of_mem_around odd hv).2]
    · by_cases next : m' = m + 1
      · linarith [(lt_of_mem_around (by omega) hv').1]
      · have apart : 4 * m + 2 < 4 * m' - f.reach m' e := by omega
        linarith [mul_lt_mul_of_pos_right (Nat.cast_lt (α := ℚ).2 apart) unit]

private theorem Interval.eq_of_mem_around (positive : 0 < f.precision) (h : f.Holds m e)
    (h' : f.Holds m' e') (hv : (around f m e).Mem v) (hv' : (around f m' e').Mem v) :
    m = m' ∧ e = e' := by
  have not_less : ¬(e < e' ∨ e = e' ∧ m < m') := fun less =>
    lt_irrefl v (lt_of_mem_around_of_lt positive h h' less hv hv')
  have not_greater : ¬(e' < e ∨ e' = e ∧ m' < m) := fun less =>
    lt_irrefl v (lt_of_mem_around_of_lt positive h' h less hv' hv)
  omega

/-- The shortest decimals of different numbers are different numbers. -/
theorem shortest_injective {tie tie' : Tie} (positive : 0 < f.precision) (h : f.Holds m e)
    (h' : f.Holds m' e') (nonzero : m ≠ 0) (nonzero' : m' ≠ 0)
    (same : (shortest f tie m e).value = (shortest f tie' m' e').value) : m = m' ∧ e = e' :=
  Interval.eq_of_mem_around positive h h' (shortest_mem_around tie nonzero)
    (same ▸ shortest_mem_around tie' nonzero')

theorem Interval.pos_of_mem_around (nonzero : m ≠ 0) (hv : (around f m e).Mem v) : 0 < v := by
  have reach : f.reach m e ≤ 2 := by
    unfold Format.reach
    split <;> omega
  have low : 0 < 4 * m - f.reach m e := by omega
  have unit : (0 : ℚ) < 2 ^ (e - 2) := by positivity
  exact lt_of_lt_of_le (mul_pos (Nat.cast_pos.2 low) unit) (le_of_mem_around hv).1

end ViewStyle.Decimal
