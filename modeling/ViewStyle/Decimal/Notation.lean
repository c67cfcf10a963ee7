/-
How numbers are written: in positional notation, with as many places as they need and no exponent,
and in the notation of JSON documents.
-/

import ViewStyle.Decimal.Shortest

set_option autoImplicit false

namespace ViewStyle.Decimal

def zeros (n : Nat) : String := String.ofList (List.replicate n '0')

def Scientific.positional (d : Scientific) : String :=
  let digits := Nat.toDigits 10 d.digits
  let places := (-d.exponent).toNat
  if 0 ≤ d.exponent then String.ofList digits ++ zeros d.exponent.toNat
  else if places < digits.length then
    String.ofList (digits.take (digits.length - places)) ++ "." ++
      String.ofList (digits.drop (digits.length - places))
  else "0." ++ zeros (places - digits.length) ++ String.ofList digits

def Scientific.document (d : Scientific) : String :=
  let digits := Nat.toDigits 10 d.digits
  let magnitude := digits.length + d.exponent
  if -5 < magnitude ∧ magnitude ≤ 16 then
    if 0 ≤ d.exponent then d.positional ++ ".0" else d.positional
  else
    let fraction := digits.drop 1
    String.ofList (digits.take 1)
      ++ (if fraction.isEmpty then "" else "." ++ String.ofList fraction)
      ++ (if 0 < magnitude then "e+" else "e") ++ toString (magnitude - 1)

def signed (negative : Bool) (text : String) : String := if negative then "-" ++ text else text

def Binary.positional (f : Format) : Binary → String
  | .nan => "NaN"
  | .infinite negative => signed negative "inf"
  | .finite negative significand exponent =>
      signed negative (if significand = 0 then "0" else
        (shortest f .up significand exponent).positional)

def positional (x : Float) : String := (Binary.ofFloat x).positional double

def positional32 (x : Float32) : String := (Binary.ofFloat32 x).positional single

def document (x : Float) : String :=
  match Binary.ofFloat x with
  | .finite negative significand exponent =>
      signed negative (if significand = 0 then "0.0" else
        (shortest double .even significand exponent).document)
  | _ => "null"

end ViewStyle.Decimal
