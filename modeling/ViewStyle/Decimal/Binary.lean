/-
Binary floating-point formats: what the bits of a number say.
-/

set_option autoImplicit false

namespace ViewStyle.Decimal

-- Powers are those of the core library, also where algebra offers those of a monoid.
attribute [local instance (high)] instPowNat

/-- A format has some digits of precision and some bits of exponent. -/
structure Format where
  precision : Nat
  exponentBits : Nat

def double : Format := ⟨53, 11⟩

def single : Format := ⟨24, 8⟩

def Format.leastExponent (f : Format) : Int := 3 - 2 ^ (f.exponentBits - 1) - f.precision

/-- A binary number; a finite one is `significand * 2 ^ exponent`. -/
inductive Binary
  | nan
  | infinite (negative : Bool)
  | finite (negative : Bool) (significand : Nat) (exponent : Int)
  deriving DecidableEq

def Binary.decode (f : Format) (bits : Nat) : Binary :=
  let fraction := bits % 2 ^ (f.precision - 1)
  let exponent := bits / 2 ^ (f.precision - 1) % 2 ^ f.exponentBits
  let negative := bits / 2 ^ (f.precision - 1 + f.exponentBits) % 2 == 1
  if exponent = 2 ^ f.exponentBits - 1 then
    if fraction = 0 then .infinite negative else .nan
  else if exponent = 0 then .finite negative fraction f.leastExponent
  else .finite negative (2 ^ (f.precision - 1) + fraction) (f.leastExponent + exponent - 1)

/-- The number that a `Float` stands for. -/
def Binary.ofFloat (x : Float) : Binary := decode double x.toBits.toNat

def Binary.ofFloat32 (x : Float32) : Binary := decode single x.toBits.toNat

def Binary.nearest (bound : Nat) : Binary → Nat
  | .nan => 0
  | .infinite negative => if negative then 0 else bound
  | .finite true _ _ => 0
  | .finite false significand exponent =>
      let doubled :=
        if 0 ≤ exponent then 2 * significand * 2 ^ exponent.toNat
        else 2 * significand / 2 ^ (-exponent).toNat
      min bound ((doubled + 1) / 2)

end ViewStyle.Decimal
