/-
Reading numbers: an optional sign, then digits with an optional point and exponent, or one of the
words for infinity and for no number.
-/

import ViewStyle.Decimal.Shortest

set_option autoImplicit false

namespace ViewStyle.Decimal

/-- What a numeral says; the decimal is `digits * 10 ^ exponent`. -/
inductive Numeral
  | nan
  | infinite (negative : Bool)
  | decimal (negative : Bool) (digits : Nat) (exponent : Int)
  deriving DecidableEq

def digitsValue (cs : List Char) : Nat := cs.foldl (fun n c => 10 * n + (c.toNat - 48)) 0

def splitSign : List Char → Bool × List Char
  | '+' :: cs => (false, cs)
  | '-' :: cs => (true, cs)
  | cs => (false, cs)

namespace Numeral

def exponent? : List Char → Option Int
  | [] => some 0
  | c :: cs =>
      let (negative, digits) := splitSign cs
      if (c = 'e' ∨ c = 'E') ∧ digits ≠ [] ∧ digits.all Char.isDigit then
        some (if negative then -(digitsValue digits : Int) else digitsValue digits)
      else none

def decimal? (negative : Bool) (cs : List Char) : Option Numeral :=
  let whole := cs.takeWhile Char.isDigit
  let (fraction, rest) :=
    match cs.dropWhile Char.isDigit with
    | '.' :: rest => (rest.takeWhile Char.isDigit, rest.dropWhile Char.isDigit)
    | rest => ([], rest)
  if whole ++ fraction = [] then none
  else (exponent? rest).map fun exponent =>
    .decimal negative (digitsValue (whole ++ fraction)) (exponent - fraction.length)

/-- Reads a whole text as a number. -/
def read? (cs : List Char) : Option Numeral :=
  let (negative, body) := splitSign cs
  match String.ofList (body.map Char.toLower) with
  | "nan" => some .nan
  | "inf" | "infinity" => some (.infinite negative)
  | _ => decimal? negative body

/-- The nearest number. A decimal that is far beyond the greatest number or below the smallest one
is not worked out. -/
def toFloat : Numeral → Float
  | .nan => Float.ofBits 0x7ff8000000000000
  | .infinite negative => Float.ofBits (if negative then 0xfff0000000000000 else 0x7ff0000000000000)
  | .decimal negative digits exponent =>
      let magnitude := length digits + exponent
      let x :=
        if digits = 0 ∨ magnitude < -330 then Float.ofBits 0
        else if 310 < magnitude then Float.ofBits 0x7ff0000000000000
        else Float.ofScientific digits (exponent < 0) exponent.natAbs
      if negative then -x else x

def toFloat32 : Numeral → Float32
  | .nan => Float32.ofBits 0x7fc00000
  | .infinite negative => Float32.ofBits (if negative then 0xff800000 else 0x7f800000)
  | .decimal negative digits exponent =>
      let magnitude := length digits + exponent
      let x :=
        if digits = 0 ∨ magnitude < -60 then Float32.ofBits 0
        else if 40 < magnitude then Float32.ofBits 0x7f800000
        else Float32.ofScientific digits (exponent < 0) exponent.natAbs
      if negative then -x else x

end Numeral

def parseFloat? (s : String) : Option Float := (Numeral.read? s.toList).map Numeral.toFloat

end ViewStyle.Decimal
