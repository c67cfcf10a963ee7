/-
How colors are written: by three, four, six or eight hexadecimal digits, and by numbers, which are
rounded to channels from 0 to 255.
-/

import Mathlib.Algebra.Order.Field.Power
import Mathlib.Algebra.Order.Round
import Mathlib.Data.Rat.Floor
import Mathlib.Tactic.Linarith
import ViewStyle.Literal

set_option autoImplicit false

namespace ViewStyle

namespace Color

/-- The digit, in either case, that stands for a number below sixteen. -/
def IsDigit (c : Char) (n : Nat) : Prop :=
  n < 16 ∧ (c = n.digitChar ∨ c = n.digitChar.toUpper)

def IsPair (high low : Char) (channel : UInt8) : Prop :=
  ∃ h l, IsDigit high h ∧ IsDigit low l ∧ channel.toNat = 16 * h + l

/-- The digits of a color. In the short forms each digit stands for two, and where the alpha channel
is left out, it is full. -/
inductive Digits : List Char → Color → Prop
  | three {r g b : Char} {c : Color} : IsPair r r c.red → IsPair g g c.green → IsPair b b c.blue →
      c.alpha = 255 → Digits [r, g, b] c
  | four {r g b a : Char} {c : Color} : IsPair r r c.red → IsPair g g c.green →
      IsPair b b c.blue → IsPair a a c.alpha → Digits [r, g, b, a] c
  | six {r r' g g' b b' : Char} {c : Color} : IsPair r r' c.red → IsPair g g' c.green →
      IsPair b b' c.blue → c.alpha = 255 → Digits [r, r', g, g', b, b'] c
  | eight {r r' g g' b b' a a' : Char} {c : Color} : IsPair r r' c.red → IsPair g g' c.green →
      IsPair b b' c.blue → IsPair a a' c.alpha → Digits [r, r', g, g', b, b', a, a'] c

theorem hexDigit_of_isDigit {c : Char} {n : Nat} (h : IsDigit c n) :
    Lexeme.isHexDigit c = true ∧ Lexeme.hexDigit c = n := by
  have every : ∀ n < 16, ∀ c, c = n.digitChar ∨ c = n.digitChar.toUpper →
      Lexeme.isHexDigit c = true ∧ Lexeme.hexDigit c = n := by
    simp only [forall_eq_or_imp, forall_eq]
    decide
  exact every n h.1 c h.2

theorem isDigit_hexDigit {c : Char} (h : Lexeme.isHexDigit c = true) :
    IsDigit c (Lexeme.hexDigit c) := by
  have every : ∀ k < 103, Lexeme.isHexDigit (Char.ofNat k) = true →
      IsDigit (Char.ofNat k) (Lexeme.hexDigit (Char.ofNat k)) := by
    unfold IsDigit
    decide +kernel
  have small : c.toNat < 103 := by
    simp only [Lexeme.isHexDigit, Char.isDigit, Bool.or_eq_true, Bool.and_eq_true,
      decide_eq_true_eq, Char.le_def, UInt32.le_iff_toNat_le] at h
    have same : c.val.toNat = c.toNat := rfl
    have digit : '9'.val.toNat = 57 := rfl
    have lower : 'f'.val.toNat = 102 := rfl
    have upper : 'F'.val.toNat = 70 := rfl
    omega
  have self := every c.toNat small
  rw [Char.ofNat_toNat] at self
  exact self h

theorem isPair_channel {high low : Char} (h : Lexeme.isHexDigit high = true)
    (l : Lexeme.isHexDigit low = true) : IsPair high low (channel high low) := by
  obtain ⟨high_lt, high_eq⟩ := isDigit_hexDigit h
  obtain ⟨low_lt, low_eq⟩ := isDigit_hexDigit l
  refine ⟨_, _, ⟨high_lt, high_eq⟩, ⟨low_lt, low_eq⟩, ?_⟩
  rw [channel, UInt8.toNat_ofNat']
  omega

theorem IsPair.eq_channel {high low : Char} {n : UInt8} (h : IsPair high low n) :
    Lexeme.isHexDigit high = true ∧ Lexeme.isHexDigit low = true ∧ n = channel high low := by
  obtain ⟨h, l, high_digit, low_digit, value⟩ := h
  obtain ⟨high_hex, rfl⟩ := hexDigit_of_isDigit high_digit
  obtain ⟨low_hex, rfl⟩ := hexDigit_of_isDigit low_digit
  refine ⟨high_hex, low_hex, ?_⟩
  rw [channel, ← value, UInt8.ofNat_toNat]

/-- A text is read as a color if and only if it is made of the digits of one. -/
theorem ofHex?_eq_some_iff {text : String} {c : Color} :
    ofHex? text = some c ↔ Digits text.toList c := by
  unfold ofHex?
  generalize text.toList = cs
  dsimp only
  constructor
  · intro h
    split at h
    · rename_i digits
      split at h
      all_goals cases h
      all_goals simp only [List.all_cons, List.all_nil, Bool.and_true, Bool.and_eq_true] at digits
      · obtain ⟨r, g, b⟩ := digits
        exact .three (isPair_channel r r) (isPair_channel g g) (isPair_channel b b) rfl
      · obtain ⟨r, g, b, a⟩ := digits
        exact .four (isPair_channel r r) (isPair_channel g g) (isPair_channel b b)
          (isPair_channel a a)
      · obtain ⟨r, r', g, g', b, b'⟩ := digits
        exact .six (isPair_channel r r') (isPair_channel g g') (isPair_channel b b') rfl
      · obtain ⟨r, r', g, g', b, b', a, a'⟩ := digits
        exact .eight (isPair_channel r r') (isPair_channel g g') (isPair_channel b b')
          (isPair_channel a a')
    · cases h
  · intro h
    obtain ⟨red, green, blue, alpha⟩ := c
    cases h with
    | three red green blue alpha =>
        obtain ⟨r, -, rfl⟩ := red.eq_channel
        obtain ⟨g, -, rfl⟩ := green.eq_channel
        obtain ⟨b, -, rfl⟩ := blue.eq_channel
        cases alpha
        simp [r, g, b]
    | four red green blue alpha =>
        obtain ⟨r, -, rfl⟩ := red.eq_channel
        obtain ⟨g, -, rfl⟩ := green.eq_channel
        obtain ⟨b, -, rfl⟩ := blue.eq_channel
        obtain ⟨a, -, rfl⟩ := alpha.eq_channel
        simp [r, g, b, a]
    | six red green blue alpha =>
        obtain ⟨r, r', rfl⟩ := red.eq_channel
        obtain ⟨g, g', rfl⟩ := green.eq_channel
        obtain ⟨b, b', rfl⟩ := blue.eq_channel
        cases alpha
        simp [r, r', g, g', b, b']
    | eight red green blue alpha =>
        obtain ⟨r, r', rfl⟩ := red.eq_channel
        obtain ⟨g, g', rfl⟩ := green.eq_channel
        obtain ⟨b, b', rfl⟩ := blue.eq_channel
        obtain ⟨a, a', rfl⟩ := alpha.eq_channel
        simp [r, r', g, g', b, b', a, a']

end Color

namespace Decimal

def Binary.value (negative : Bool) (significand : Nat) (exponent : Int) : ℚ :=
  (if negative then -(significand : ℚ) else significand) * 2 ^ exponent

private theorem round_binary (significand : Nat) (exponent : Int) :
    round (significand * 2 ^ exponent : ℚ) =
      (((if 0 ≤ exponent then 2 * significand * 2 ^ exponent.toNat
        else 2 * significand / 2 ^ (-exponent).toNat) + 1) / 2 : Nat) := by
  have floor : ⌊2 * (significand * 2 ^ exponent : ℚ)⌋ =
      ((if 0 ≤ exponent then 2 * significand * 2 ^ exponent.toNat
        else 2 * significand / 2 ^ (-exponent).toNat : Nat) : ℤ) := by
    split
    · obtain ⟨k, rfl⟩ : ∃ k : Nat, exponent = k := ⟨exponent.toNat, by omega⟩
      rw [Int.toNat_natCast, zpow_natCast, ← mul_assoc]
      exact_mod_cast Int.floor_natCast (R := ℚ) (2 * significand * 2 ^ k)
    · obtain ⟨k, rfl⟩ : ∃ k : Nat, exponent = -k := ⟨(-exponent).toNat, by omega⟩
      rw [neg_neg, Int.toNat_natCast, zpow_neg, zpow_natCast, ← mul_assoc, ← div_eq_mul_inv]
      exact_mod_cast Rat.floor_natCast_div_natCast (2 * significand) (2 ^ k)
  rw [round_eq_div, floor]
  rfl

private theorem Binary.nearest_finite (bound : Nat) (negative : Bool) (significand : Nat)
    (exponent : Int) :
    ((Binary.finite negative significand exponent).nearest bound : ℤ) =
      max 0 (min (bound : ℤ) (round (value negative significand exponent))) := by
  cases negative with
  | true =>
      have below : round (value true significand exponent) ≤ 0 := by
        rw [round_eq, Int.floor_le_iff, value, if_pos rfl]
        have positive : 0 ≤ (significand * 2 ^ exponent : ℚ) := by positivity
        push_cast
        linarith
      rw [max_eq_left (le_trans (min_le_right _ _) below)]
      rfl
  | false =>
      rw [value, if_neg Bool.false_ne_true, round_binary, ← Nat.cast_min,
        max_eq_right (Int.natCast_nonneg _)]
      rfl

end Decimal

namespace Literal

open Decimal (Binary)

/-- The channel of a number: it is rounded, a half away from zero, and kept between 0 and 255. What
is no number gives zero. -/
inductive IsChannel (channel : UInt8) : Binary → Prop
  | nan : channel = 0 → IsChannel channel .nan
  | infinite {negative : Bool} : channel = (if negative then 0 else 255) →
      IsChannel channel (.infinite negative)
  | finite {negative : Bool} {significand : Nat} {exponent : Int} :
      (channel.toNat : ℤ) =
        max 0 (min 255 (round (Binary.value negative significand exponent))) →
      IsChannel channel (.finite negative significand exponent)

private theorem nearest_le (bound : Nat) (b : Binary) : b.nearest bound ≤ bound := by
  cases b with
  | nan => exact Nat.zero_le _
  | infinite negative => cases negative <;> simp [Binary.nearest]
  | finite negative significand exponent =>
      cases negative
      · exact min_le_left _ _
      · exact Nat.zero_le _

theorem isChannel_iff {channel : UInt8} {x : Float} :
    IsChannel channel (.ofFloat x) ↔ channel = colorChannel x := by
  unfold colorChannel
  generalize Binary.ofFloat x = b
  cases b with
  | nan => exact ⟨fun | .nan zero => zero, .nan⟩
  | infinite negative =>
      have same : UInt8.ofNat ((Binary.infinite negative).nearest 255) =
          if negative then 0 else 255 := by
        cases negative <;> rfl
      rw [same]
      exact ⟨fun | .infinite value => value, .infinite⟩
  | finite negative significand exponent =>
      have small := nearest_le 255 (.finite negative significand exponent)
      have same : channel = UInt8.ofNat ((Binary.finite negative significand exponent).nearest 255) ↔
          (channel.toNat : ℤ) =
            max 0 (min 255 (round (Binary.value negative significand exponent))) := by
        have rounded := Decimal.Binary.nearest_finite 255 negative significand exponent
        rw [← UInt8.toNat_inj, UInt8.toNat_ofNat', Nat.mod_eq_of_lt (by omega)]
        omega
      rw [same]
      exact ⟨fun | .finite value => value, .finite⟩

end Literal

end ViewStyle
