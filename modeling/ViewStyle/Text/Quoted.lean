/-
Two ways to write a text between double quotes: one in which every character shows, and the one of
JSON, which escapes no more than it has to.
-/

import ViewStyle.Text.Printable

set_option autoImplicit false

namespace ViewStyle.Text

def hexadecimal (n : Nat) : String := String.ofList (Nat.toDigits 16 n)

def paddedHexadecimal (width n : Nat) : String :=
  let digits := Nat.toDigits 16 n
  String.ofList (List.replicate (width - digits.length) '0' ++ digits)

/-- A character inside shown text: the usual escapes, and the code point of what does not print. -/
def shownChar (c : Char) : String :=
  match c with
  | '"' => "\\\""
  | '\\' => "\\\\"
  | '\x00' => "\\0"
  | '\t' => "\\t"
  | '\n' => "\\n"
  | '\r' => "\\r"
  | c => if isPrintable c then c.toString else "\\u\x7b" ++ hexadecimal c.toNat ++ "\x7d"

def shown (s : String) : String := "\"" ++ String.join (s.toList.map shownChar) ++ "\""

def jsonChar (c : Char) : String :=
  match c with
  | '"' => "\\\""
  | '\\' => "\\\\"
  | '\x08' => "\\b"
  | '\x0c' => "\\f"
  | '\t' => "\\t"
  | '\n' => "\\n"
  | '\r' => "\\r"
  | c => if c < ' ' then "\\u" ++ paddedHexadecimal 4 c.toNat else c.toString

def json (s : String) : String := "\"" ++ String.join (s.toList.map jsonChar) ++ "\""

end ViewStyle.Text
