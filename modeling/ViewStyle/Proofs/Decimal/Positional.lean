/-
Positional notation tells numbers apart: the text of a decimal determines its value, and with the
shortest decimal the text of a binary number determines the number.
-/

import Mathlib.Data.List.TakeWhile
import ViewStyle.Decimal.Notation
import ViewStyle.Decimal.Numeral
import ViewStyle.Proofs.Decimal.Shortest

set_option autoImplicit false

namespace ViewStyle.Decimal

def places (cs : List Char) : Nat := (cs.dropWhile (· != '.')).length - 1

def readValue (cs : List Char) : ℚ := digitsValue (cs.filter (· != '.')) / 10 ^ places cs

private theorem digitsValue_append_replicate (cs : List Char) (n : Nat) :
    digitsValue (cs ++ List.replicate n '0') = digitsValue cs * 10 ^ n := by
  show Nat.ofDigitChars 10 (cs ++ List.replicate n '0') 0 = Nat.ofDigitChars 10 cs 0 * 10 ^ n
  rw [Nat.ofDigitChars_append, Nat.ofDigitChars_replicate_zero, Nat.mul_comm]

private theorem digitsValue_replicate_append (cs : List Char) (n : Nat) :
    digitsValue (List.replicate n '0' ++ cs) = digitsValue cs := by
  show Nat.ofDigitChars 10 (List.replicate n '0' ++ cs) 0 = Nat.ofDigitChars 10 cs 0
  rw [Nat.ofDigitChars_append, Nat.ofDigitChars_replicate_zero, Nat.mul_zero]

private theorem digitsValue_toDigits (n : Nat) : digitsValue (Nat.toDigits 10 n) = n :=
  Nat.ofDigitChars_ten_toDigits

private theorem isDigit_of_mem_toDigits {n : Nat} {c : Char} (h : c ∈ Nat.toDigits 10 n) :
    c.isDigit = true :=
  Nat.isDigit_of_mem_toDigits (by decide) (by decide) h

private theorem ne_point_of_isDigit {c : Char} (h : c.isDigit = true) : (c != '.') = true := by
  rw [bne_iff_ne]
  rintro rfl
  exact absurd h (by decide)

private theorem filter_digits {cs : List Char} (h : ∀ c ∈ cs, c.isDigit = true) :
    cs.filter (· != '.') = cs :=
  List.filter_eq_self.2 fun c member => ne_point_of_isDigit (h c member)

private theorem readValue_digits {cs : List Char} (h : ∀ c ∈ cs, c.isDigit = true) :
    readValue cs = digitsValue cs := by
  have none : cs.dropWhile (· != '.') = [] := by
    rw [List.dropWhile_eq_nil_iff]
    exact fun c member => ne_point_of_isDigit (h c member)
  rw [readValue, places, none, filter_digits h]
  exact div_one _

private theorem readValue_point {whole fraction : List Char}
    (h : ∀ c ∈ whole ++ fraction, c.isDigit = true) :
    readValue (whole ++ ['.'] ++ fraction) =
      digitsValue (whole ++ fraction) / 10 ^ fraction.length := by
  have before : ∀ c ∈ whole, c.isDigit = true := fun c member => h c (List.mem_append_left _ member)
  have behind : ∀ c ∈ fraction, c.isDigit = true :=
    fun c member => h c (List.mem_append_right _ member)
  have point : (whole ++ ['.'] ++ fraction).dropWhile (· != '.') = '.' :: fraction := by
    rw [List.append_assoc,
      List.dropWhile_append_of_pos fun c member => ne_point_of_isDigit (before c member)]
    rfl
  have digits : (whole ++ ['.'] ++ fraction).filter (· != '.') = whole ++ fraction := by
    rw [List.filter_append, List.filter_append, filter_digits before, filter_digits behind]
    simp
  rw [readValue, places, point, digits]
  rfl

private theorem readValue_positional (d : Scientific) :
    readValue d.positional.toList = d.value := by
  have digits : ∀ c ∈ Nat.toDigits 10 d.digits, c.isDigit = true :=
    fun c => isDigit_of_mem_toDigits
  have zeros_digits : ∀ n, ∀ c ∈ List.replicate n '0', c.isDigit = true := by
    intro n c member
    rw [List.eq_of_mem_replicate member]
    rfl
  unfold Scientific.positional
  dsimp only
  split
  · rename_i integer
    have all : ∀ c ∈ Nat.toDigits 10 d.digits ++ List.replicate d.exponent.toNat '0',
        c.isDigit = true := by
      intro c member
      exact (List.mem_append.1 member).elim (digits c) (zeros_digits _ c)
    simp only [String.toList_append, String.toList_ofList, zeros]
    rw [readValue_digits all, digitsValue_append_replicate, digitsValue_toDigits, Scientific.value]
    push_cast
    rw [← zpow_natCast, Int.toNat_of_nonneg integer]
  · rename_i fractional
    have tens : (10 : ℚ) ^ d.exponent = (10 ^ (-d.exponent).toNat)⁻¹ := by
      rw [← zpow_natCast, ← zpow_neg, Int.toNat_of_nonneg (by omega), neg_neg]
    split
    · rename_i inside
      have all : ∀ c ∈ (Nat.toDigits 10 d.digits).take
          ((Nat.toDigits 10 d.digits).length - (-d.exponent).toNat) ++
            (Nat.toDigits 10 d.digits).drop
              ((Nat.toDigits 10 d.digits).length - (-d.exponent).toNat), c.isDigit = true := by
        rw [List.take_append_drop]
        exact digits
      simp only [String.toList_append, String.toList_ofList]
      rw [show ".".toList = ['.'] from rfl, readValue_point all, List.take_append_drop,
        digitsValue_toDigits, List.length_drop, Nat.sub_sub_self (Nat.le_of_lt inside),
        Scientific.value, tens]
      rfl
    · rename_i outside
      have all : ∀ c ∈ ['0'] ++ (List.replicate
          ((-d.exponent).toNat - (Nat.toDigits 10 d.digits).length) '0' ++
            Nat.toDigits 10 d.digits), c.isDigit = true := by
        intro c member
        rcases List.mem_append.1 member with zero | member
        · exact zeros_digits 1 c zero
        · exact (List.mem_append.1 member).elim (zeros_digits _ c) (digits c)
      simp only [String.toList_append, String.toList_ofList, zeros]
      rw [show "0.".toList = ['0'] ++ ['.'] from rfl, List.append_assoc, readValue_point all,
        show ['0'] = List.replicate 1 '0' from rfl, digitsValue_replicate_append,
        digitsValue_replicate_append, digitsValue_toDigits, List.length_append,
        List.length_replicate, Nat.sub_add_cancel (by omega), Scientific.value, tens]
      rfl

def Numeric (cs : List Char) : Prop :=
  ∃ c rest, cs = c :: rest ∧ c.isDigit = true ∧ ∀ d ∈ rest, d.isDigit = true ∨ d = '.'

private theorem Numeric.append {cs ds : List Char} (h : Numeric cs)
    (behind : ∀ d ∈ ds, d.isDigit = true ∨ d = '.') : Numeric (cs ++ ds) := by
  obtain ⟨c, rest, rfl, first, others⟩ := h
  refine ⟨c, rest ++ ds, rfl, first, fun d member => ?_⟩
  exact (List.mem_append.1 member).elim (others d) (behind d)

private theorem numeric_of_digits {cs : List Char} (nonempty : cs ≠ [])
    (h : ∀ c ∈ cs, c.isDigit = true) : Numeric cs := by
  cases cs with
  | nil => exact absurd rfl nonempty
  | cons c rest =>
      exact ⟨c, rest, rfl, h c List.mem_cons_self, fun d member =>
        .inl (h d (List.mem_cons_of_mem _ member))⟩

private theorem numeric_positional (d : Scientific) : Numeric d.positional.toList := by
  have digits : ∀ c ∈ Nat.toDigits 10 d.digits, c.isDigit = true :=
    fun c => isDigit_of_mem_toDigits
  have zeros_digits : ∀ n, ∀ c ∈ (zeros n).toList, c.isDigit = true := by
    intro n c member
    rw [zeros, String.toList_ofList] at member
    rw [List.eq_of_mem_replicate member]
    rfl
  have point : ∀ c ∈ ".".toList, c.isDigit = true ∨ c = '.' :=
    fun c member => .inr (List.mem_singleton.1 member)
  unfold Scientific.positional
  dsimp only
  split
  · rw [String.toList_append, String.toList_ofList]
    exact (numeric_of_digits Nat.toDigits_ne_nil digits).append
      fun c member => .inl (zeros_digits _ c member)
  · split
    · rename_i inside
      have nonempty : (Nat.toDigits 10 d.digits).take
          ((Nat.toDigits 10 d.digits).length - (-d.exponent).toNat) ≠ [] := by
        rw [Ne, List.take_eq_nil_iff, not_or]
        exact ⟨by omega, Nat.toDigits_ne_nil⟩
      simp only [String.toList_append, String.toList_ofList]
      exact ((numeric_of_digits nonempty fun c member => digits c (List.mem_of_mem_take member)).append
        point).append fun c member => .inl (digits c (List.mem_of_mem_drop member))
    · simp only [String.toList_append, String.toList_ofList]
      have whole : Numeric "0.".toList := ⟨'0', ['.'], rfl, rfl, point⟩
      exact (whole.append fun c member => .inl (zeros_digits _ c member)).append
        fun c member => .inl (digits c member)

namespace Binary

variable {f : Format}

def Holds (f : Format) : Binary → Prop
  | .finite _ m e => f.Holds m e
  | _ => True

theorem toList_signed (negative : Bool) (text : String) :
    (signed negative text).toList = if negative then '-' :: text.toList else text.toList := by
  unfold signed
  split
  · rw [String.toList_append]
    rfl
  · rfl

theorem exists_positional_finite (negative : Bool) (m : Nat) (e : Int) :
    ∃ text : String, (finite negative m e).positional f = signed negative text ∧
      Numeric text.toList ∧
      (m = 0 → readValue text.toList = 0) ∧
      (m ≠ 0 → readValue text.toList = (shortest f .up m e).value) := by
  by_cases zero : m = 0
  · refine ⟨"0", by simp only [positional, if_pos zero], ⟨'0', [], rfl, rfl, nofun⟩, fun _ => ?_,
      fun nonzero => absurd zero nonzero⟩
    simp [readValue, places, digitsValue]
  · exact ⟨_, by simp only [positional, if_neg zero], numeric_positional _,
      fun equal => absurd equal zero, fun _ => readValue_positional _⟩

private theorem positional_finite_injective (positive : 0 < f.precision) {negative negative' : Bool}
    {m m' : Nat} {e e' : Int} (h : f.Holds m e) (h' : f.Holds m' e')
    (same : (finite negative m e).positional f = (finite negative' m' e').positional f) :
    finite negative m e = finite negative' m' e' := by
  obtain ⟨text, eq, ⟨c, rest, first, digit, -⟩, value_zero, value⟩ :=
    exists_positional_finite (f := f) negative m e
  obtain ⟨text', eq', ⟨c', rest', first', digit', -⟩, value_zero', value'⟩ :=
    exists_positional_finite (f := f) negative' m' e'
  have lists : (signed negative text).toList = (signed negative' text').toList := by
    rw [← eq, ← eq', same]
  have signs : negative = negative' ∧ text.toList = text'.toList := by
    rw [toList_signed, toList_signed] at lists
    cases negative with
    | false =>
        cases negative' with
        | false => exact ⟨rfl, lists⟩
        | true =>
            rw [first] at lists
            rw [(List.cons.inj lists).1] at digit
            exact absurd digit (by decide)
    | true =>
        cases negative' with
        | false =>
            rw [first'] at lists
            rw [← (List.cons.inj lists).1] at digit'
            exact absurd digit' (by decide)
        | true => exact ⟨rfl, (List.cons.inj lists).2⟩
  obtain ⟨rfl, texts⟩ := signs
  have positive_of : ∀ {n : Nat} {k : Int}, n ≠ 0 → 0 < (shortest f .up n k).value :=
    fun nonzero => Interval.pos_of_mem_around nonzero (shortest_mem_around .up nonzero)
  by_cases hm : m = 0
  · by_cases hm' : m' = 0
    · rw [hm] at h
      rw [hm'] at h'
      rw [hm, hm', h.exponent_of_zero, h'.exponent_of_zero]
    · have equal := value_zero hm
      rw [texts, value' hm'] at equal
      exact absurd equal (positive_of hm').ne'
  · by_cases hm' : m' = 0
    · have equal := value_zero' hm'
      rw [← texts, value hm] at equal
      exact absurd equal (positive_of hm).ne'
    · have equal : (shortest f .up m e).value = (shortest f .up m' e').value := by
        rw [← value hm, ← value' hm', texts]
      obtain ⟨rfl, rfl⟩ := shortest_injective positive h h' hm hm' equal
      rfl

/-- Numbers of a format with the same text are the same number. -/
theorem positional_injective (positive : 0 < f.precision) {a b : Binary} (ha : a.Holds f)
    (hb : b.Holds f) (same : a.positional f = b.positional f) : a = b := by
  have not_word : ∀ negative m e, ∀ word ∈ ["NaN", "inf", "-inf"],
      (finite negative m e).positional f ≠ word := by
    intro negative m e word member equal
    obtain ⟨text, eq, ⟨c, rest, first, digit, -⟩, -⟩ :=
      exists_positional_finite (f := f) negative m e
    have lists : (signed negative text).toList = word.toList := by rw [← eq, equal]
    rw [toList_signed, first] at lists
    simp only [List.mem_cons, List.not_mem_nil, or_false] at member
    cases negative with
    | false =>
        rcases member with rfl | rfl | rfl
        · exact absurd ((List.cons.inj lists).1 ▸ digit) (by decide)
        · exact absurd ((List.cons.inj lists).1 ▸ digit) (by decide)
        · exact absurd ((List.cons.inj lists).1 ▸ digit) (by decide)
    | true =>
        rcases member with rfl | rfl | rfl
        · exact absurd (List.cons.inj lists).1 (by decide)
        · exact absurd (List.cons.inj lists).1 (by decide)
        · exact absurd ((List.cons.inj (List.cons.inj lists).2).1 ▸ digit) (by decide)
  have nan_word : (nan.positional f) ∈ ["NaN", "inf", "-inf"] := List.mem_cons_self
  have infinite_word : ∀ negative, (infinite negative).positional f ∈ ["NaN", "inf", "-inf"] := by
    intro negative
    cases negative with
    | false => exact List.mem_cons_of_mem _ List.mem_cons_self
    | true => exact List.mem_cons_of_mem _ (List.mem_cons_of_mem _ List.mem_cons_self)
  cases a with
  | nan =>
      cases b with
      | nan => rfl
      | infinite negative =>
          cases negative with
          | false => exact absurd same (by decide : "NaN" ≠ "inf")
          | true => exact absurd same (by decide : "NaN" ≠ "-inf")
      | finite negative m e => exact absurd same.symm (not_word negative m e _ nan_word)
  | infinite negative =>
      cases b with
      | nan =>
          cases negative with
          | false => exact absurd same (by decide : "inf" ≠ "NaN")
          | true => exact absurd same (by decide : "-inf" ≠ "NaN")
      | infinite negative' =>
          cases negative <;> cases negative'
          · rfl
          · exact absurd same (by decide : "inf" ≠ "-inf")
          · exact absurd same (by decide : "-inf" ≠ "inf")
          · rfl
      | finite negative' m e =>
          exact absurd same.symm (not_word negative' m e _ (infinite_word negative))
  | finite negative m e =>
      cases b with
      | nan => exact absurd same (not_word negative m e _ nan_word)
      | infinite negative' => exact absurd same (not_word negative m e _ (infinite_word negative'))
      | finite negative' m' e' => exact positional_finite_injective positive ha hb same

private theorem holds_decode (positive : 0 < f.precision) (bits : Nat) :
    (decode f bits).Holds f := by
  have double : 2 ^ f.precision = 2 * 2 ^ (f.precision - 1) := by
    rw [← Nat.pow_succ']
    congr 1
    omega
  have fraction : bits % 2 ^ (f.precision - 1) < 2 ^ (f.precision - 1) :=
    Nat.mod_lt _ (Nat.two_pow_pos _)
  unfold decode
  dsimp only
  split
  · split <;> trivial
  · split
    · exact ⟨le_refl _, by omega, fun less => absurd less (lt_irrefl _)⟩
    · rename_i normal
      exact ⟨by omega, by omega, fun _ => Nat.le_add_right _ _⟩

private theorem decode_injective {a b : Nat} (ha : a < 2 ^ (f.precision - 1 + f.exponentBits + 1))
    (hb : b < 2 ^ (f.precision - 1 + f.exponentBits + 1)) (number : decode f a ≠ .nan)
    (same : decode f a = decode f b) : a = b := by
  have split_bits : ∀ n : Nat, n = 2 ^ (f.precision - 1) *
      (2 ^ f.exponentBits * (n / 2 ^ (f.precision - 1 + f.exponentBits)) +
        n / 2 ^ (f.precision - 1) % 2 ^ f.exponentBits) + n % 2 ^ (f.precision - 1) := by
    intro n
    rw [Nat.pow_add, ← Nat.div_div_eq_div_mul, Nat.div_add_mod, Nat.div_add_mod]
  have sign_lt : ∀ n : Nat, n < 2 ^ (f.precision - 1 + f.exponentBits + 1) →
      n / 2 ^ (f.precision - 1 + f.exponentBits) < 2 := by
    intro n bound
    rw [Nat.div_lt_iff_lt_mul (Nat.two_pow_pos _), Nat.mul_comm]
    exact bound
  have sign_eq : (a / 2 ^ (f.precision - 1 + f.exponentBits) % 2 == 1) =
      (b / 2 ^ (f.precision - 1 + f.exponentBits) % 2 == 1) →
      a / 2 ^ (f.precision - 1 + f.exponentBits) = b / 2 ^ (f.precision - 1 + f.exponentBits) := by
    intro equal
    have la := sign_lt a ha
    have lb := sign_lt b hb
    rw [Nat.mod_eq_of_lt la, Nat.mod_eq_of_lt lb] at equal
    have iff := Bool.eq_iff_iff.1 equal
    rw [beq_iff_eq, beq_iff_eq] at iff
    generalize a / 2 ^ (f.precision - 1 + f.exponentBits) = x at la iff ⊢
    generalize b / 2 ^ (f.precision - 1 + f.exponentBits) = y at lb iff ⊢
    omega
  have fraction_lt : ∀ n : Nat, n % 2 ^ (f.precision - 1) < 2 ^ (f.precision - 1) :=
    fun n => Nat.mod_lt _ (Nat.two_pow_pos _)
  have la := fraction_lt a
  have lb := fraction_lt b
  unfold decode at same number
  dsimp only at same number
  rw [split_bits a, split_bits b]
  split at same
  · rename_i infinite_a
    rw [if_pos infinite_a] at number
    split at same
    · rename_i fraction_a
      split at same
      · rename_i infinite_b
        split at same
        · rename_i fraction_b
          rw [sign_eq (Binary.infinite.inj same), infinite_a, infinite_b, fraction_a, fraction_b]
        · cases same
      · split at same <;> cases same
    · rename_i none
      exact absurd (if_neg none) number
  · split at same
    · rename_i small_a
      split at same
      · split at same <;> cases same
      · split at same
        · rename_i small_b
          obtain ⟨sign, fraction, -⟩ := Binary.finite.inj same
          rw [sign_eq sign, small_a, small_b, fraction]
        · obtain ⟨-, fraction, -⟩ := Binary.finite.inj same
          omega
    · split at same
      · split at same <;> cases same
      · split at same
        · obtain ⟨-, fraction, -⟩ := Binary.finite.inj same
          omega
        · obtain ⟨sign, fraction, exponent⟩ := Binary.finite.inj same
          have exponents : a / 2 ^ (f.precision - 1) % 2 ^ f.exponentBits =
              b / 2 ^ (f.precision - 1) % 2 ^ f.exponentBits := by omega
          have fractions : a % 2 ^ (f.precision - 1) = b % 2 ^ (f.precision - 1) := by omega
          rw [sign_eq sign, exponents, fractions]

private theorem toBits_of_ofFloat_eq_nan {x : Float} (h : ofFloat x = .nan) :
    x.toBits.toBitVec = Float.Model.UnpackedFloat.packedNaN Float.Model.Format.binary64 := by
  have fields : x.toBits.toNat / 2 ^ 52 % 2 ^ 11 = 2 ^ 11 - 1 ∧ x.toBits.toNat % 2 ^ 52 ≠ 0 := by
    unfold ofFloat decode at h
    dsimp only at h
    split at h
    · rename_i exponent
      split at h
      · cases h
      · rename_i fraction
        exact ⟨exponent, fraction⟩
    · split at h <;> cases h
  refine x.toModel.valid.eq_packedNaN ?_ ?_
  · apply BitVec.eq_of_toNat_eq
    show (x.toBits.toNat >>> 52) % 2 ^ 11 = _
    rw [Nat.shiftRight_eq_div_pow, fields.1]
    rfl
  · intro zero
    have fraction := congrArg BitVec.toNat zero
    have remainder : x.toModel.toBits.toNat % 2 ^ 52 = 0 := by
      simpa [Float.Model.UnpackedFloat.unpackMantissa] using fraction
    exact fields.2 remainder

private theorem ofFloat_injective : Function.Injective ofFloat := by
  intro x y same
  have bits : x.toBits.toNat = y.toBits.toNat := by
    by_cases none : ofFloat x = .nan
    · have none' : ofFloat y = .nan := same ▸ none
      exact congrArg BitVec.toNat
        ((toBits_of_ofFloat_eq_nan none).trans (toBits_of_ofFloat_eq_nan none').symm)
    · exact decode_injective (f := double) x.toBits.toNat_lt y.toBits.toNat_lt none same
  obtain ⟨⟨xbits, xvalid⟩⟩ := x
  obtain ⟨⟨ybits, yvalid⟩⟩ := y
  obtain rfl : xbits = ybits := UInt64.toNat_inj.1 bits
  rfl

private theorem holds_ofFloat (x : Float) : (ofFloat x).Holds double :=
  holds_decode (by decide) x.toBits.toNat

end Binary

/-- Numbers with the same text are the same number; the text also tells zero from its negative. -/
theorem positional_injective : Function.Injective positional := by
  intro x y same
  exact Binary.ofFloat_injective (Binary.positional_injective (by decide) (Binary.holds_ofFloat x)
    (Binary.holds_ofFloat y) same)

end ViewStyle.Decimal
