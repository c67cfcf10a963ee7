/-
The shortest decimal that reads back as a given binary number: of all decimals that round to the
number, one with the fewest digits, and of those the nearest.
-/

import ViewStyle.Decimal.Binary

set_option autoImplicit false

namespace ViewStyle.Decimal

-- Powers are those of the core library, also where algebra offers those of a monoid.
attribute [local instance (high)] instPowNat

/-- The number `digits * 10 ^ exponent`. -/
structure Scientific where
  digits : Nat
  exponent : Int
  deriving DecidableEq

def length (n : Nat) : Nat := (Nat.toDigits 10 n).length

def Scientific.strip (d : Scientific) : Scientific :=
  if h : d.digits ≠ 0 ∧ d.digits % 10 = 0 then strip ⟨d.digits / 10, d.exponent + 1⟩ else d
termination_by d.digits
decreasing_by
  exact Nat.div_lt_self (Nat.pos_of_ne_zero h.1) (by decide)

/-- Which of two decimals at the same distance is taken. -/
inductive Tie
  | up
  | even

/-- The reals that round to a number: the quotients of integers between `low` and `high` by
`denominator`, the ends included or not; `value` is the number itself. -/
structure Interval where
  low : Nat
  value : Nat
  high : Nat
  denominator : Nat
  closed : Bool

def Interval.around (f : Format) (significand : Nat) (exponent : Int) : Interval :=
  let below := if significand = 2 ^ (f.precision - 1) ∧ exponent ≠ f.leastExponent then 1 else 2
  let scale := 2 ^ (exponent - 2).toNat
  { low := (4 * significand - below) * scale
    value := 4 * significand * scale
    high := (4 * significand + 2) * scale
    denominator := 2 ^ (2 - exponent).toNat
    closed := significand % 2 == 0 }

def Interval.magnitude (i : Interval) : Int :=
  if i.denominator ≤ i.value then length (i.value / i.denominator)
  else 1 - (length ((i.denominator - 1) / i.value) : Int)

def Interval.contains (i : Interval) (factor unit candidate : Nat) : Bool :=
  if i.closed then i.low * factor ≤ candidate * unit && candidate * unit ≤ i.high * factor
  else i.low * factor < candidate * unit && candidate * unit < i.high * factor

def Interval.pick (i : Interval) (tie : Tie) (digits : Nat) : Option Scientific :=
  let place := i.magnitude - digits
  let factor := 10 ^ (-place).toNat
  let unit := i.denominator * 10 ^ place.toNat
  let lower := i.value * factor / unit
  let rest := i.value * factor % unit
  match i.contains factor unit lower, i.contains factor unit (lower + 1) with
  | false, false => none
  | true, false => some ⟨lower, place⟩
  | false, true => some ⟨lower + 1, place⟩
  | true, true =>
      let above : Bool :=
        match tie with
        | .up => decide (unit ≤ 2 * rest)
        | .even => decide (unit < 2 * rest) || (unit == 2 * rest && lower % 2 == 1)
      some ⟨if above then lower + 1 else lower, place⟩

/-- Seventeen digits are enough for every number of the two formats; the exact value stands for a
number that needs more. -/
def shortest (f : Format) (tie : Tie) (significand : Nat) (exponent : Int) : Scientific :=
  let i := Interval.around f significand exponent
  let exact : Scientific :=
    ⟨significand * 2 ^ exponent.toNat * 5 ^ (-exponent).toNat, min exponent 0⟩
  (((List.range' 1 17).findSome? (i.pick tie)).getD exact).strip

end ViewStyle.Decimal
