/-
Lexemes of a source text after the CSS syntax rules: what the next few characters form, before
brackets are matched and operators are put together. Each scanner returns what it has read and the
number of characters it takes from the start of the text.
-/

import ViewStyle.Text.Position
import ViewStyle.Decimal.Numeral

set_option autoImplicit false

namespace ViewStyle

open Text (endsLine)

/-- A piece of source text. A mark is a single character that is part of nothing longer. -/
inductive Lexeme
  | blank
  | comment (closed : Bool)
  | ident (name : String)
  | atWord (name : String)
  | hash (name : String)
  | string (text : String) (closed : Bool)
  | number (value : Float) (unit : Option String)
  | function (name : String)
  | address (target : String)
  | mark (c : Char)
  | refused
  deriving DecidableEq

namespace Lexeme

def replacement : Char := '\uFFFD'

def isSpace (c : Char) : Bool := c == ' ' || c == '\t' || endsLine c

/-- A character that a name may start with, a hyphen and an escape apart. -/
def startsName (c : Char) : Bool := c.isAlpha || c == '_' || c == '\x00' || 128 ≤ c.toNat

def continuesName (c : Char) : Bool := startsName c || c.isDigit || c == '-'

def isHexDigit (c : Char) : Bool :=
  c.isDigit || ('a' ≤ c && c ≤ 'f') || ('A' ≤ c && c ≤ 'F')

def hexDigit (c : Char) : Nat :=
  if c.isDigit then c.toNat - 48 else if 'a' ≤ c then c.toNat - 87 else c.toNat - 55

def codePoint (n : Nat) : Char :=
  if n ≠ 0 ∧ n.isValidChar then Char.ofNat n else replacement

/-- A character as it stands in a name or string. -/
def plain (c : Char) : Char := if c = '\x00' then replacement else c

/-- The text starts with the end of a line. -/
def atLineEnd : List Char → Bool
  | [] => false
  | c :: _ => endsLine c

/-- The number of characters of one space, tab or line end at the start of a text; a carriage return
and a line feed are one. -/
def spaceLength : List Char → Nat
  | '\r' :: '\n' :: _ => 2
  | c :: _ => if isSpace c then 1 else 0
  | [] => 0

/-- The number of characters of all white space at the start of a text. -/
def blankLength (cs : List Char) : Nat := (cs.takeWhile isSpace).length

/-- The character that an escape writes, after its backslash: up to six hexadecimal digits and one
space, or the character itself. -/
def escape : List Char → Char × Nat
  | [] => (replacement, 0)
  | c :: cs =>
      let digits := ((c :: cs).take 6).takeWhile isHexDigit
      if digits.isEmpty then (plain c, 1)
      else
        (codePoint (digits.foldl (fun n d => 16 * n + hexDigit d) 0),
          digits.length + spaceLength ((c :: cs).drop digits.length))

/-- Takes the longest name; a backslash before a line end does not belong to it. -/
def takeName : List Char → List Char × Nat
  | [] => ([], 0)
  | '\\' :: cs =>
      if atLineEnd cs then ([], 0)
      else
        let (c, n) := escape cs
        let (name, m) := takeName (cs.drop n)
        (c :: name, 1 + n + m)
  | c :: cs =>
      if continuesName c then let (name, n) := takeName cs; (plain c :: name, n + 1)
      else ([], 0)
termination_by cs => cs.length

/-- The text starts with a name. After a hyphen any backslash counts as an escape. -/
def atName : List Char → Bool
  | [] => false
  | '-' :: c :: _ => startsName c || c == '-' || c == '\\'
  | '\\' :: cs => !atLineEnd cs
  | c :: _ => startsName c

/-- The text continues a hash, which unlike a name may start with a digit. -/
def atHash : List Char → Bool
  | [] => false
  | c :: cs => atName (c :: cs) || c.isDigit || c == '-'

/-- Takes a string up to its closing quote; the flag tells whether there is one before the text or
the line ends. -/
def takeString (quote : Char) : List Char → List Char × Bool × Nat
  | [] => ([], false, 0)
  | '\\' :: cs =>
      if cs.isEmpty then ([], false, 1)
      else if atLineEnd cs then
        let (text, closed, n) := takeString quote (cs.drop (spaceLength cs))
        (text, closed, 1 + spaceLength cs + n)
      else
        let (c, n) := escape cs
        let (text, closed, m) := takeString quote (cs.drop n)
        (c :: text, closed, 1 + n + m)
  | c :: cs =>
      if c = quote then ([], true, 1)
      else if endsLine c then ([], false, 0)
      else let (text, closed, n) := takeString quote cs; (plain c :: text, closed, n + 1)
termination_by cs => cs.length

/-- Takes a comment, after its opening characters, up to its closing ones if there are any. -/
def takeComment : List Char → Bool × Nat
  | [] => (false, 0)
  | '*' :: '/' :: _ => (true, 2)
  | _ :: cs => let (closed, n) := takeComment cs; (closed, n + 1)

def breaksAddress (c : Char) : Bool :=
  c == '"' || c == '\'' || c == '(' || ('\x01' ≤ c && c ≤ '\x08') || c == '\x0b' ||
    ('\x0e' ≤ c && c ≤ '\x1f') || c == '\x7f'

/-- The number of characters up to the end of a malformed address, which is the next round bracket
that is not escaped. -/
def malformedLength : List Char → Nat
  | [] => 0
  | ')' :: _ => 1
  | '\\' :: ')' :: cs => malformedLength cs + 2
  | '\\' :: '\\' :: cs => malformedLength cs + 2
  | _ :: cs => malformedLength cs + 1

def endAddress (cs : List Char) : Bool × Nat :=
  let blanks := blankLength cs
  match cs.drop blanks with
  | [] => (true, blanks)
  | ')' :: _ => (true, blanks + 1)
  | _ :: rest => (false, blanks + 1 + malformedLength rest)

/-- Takes an unquoted address up to its closing bracket; the flag tells whether it is well
formed. -/
def takeAddress : List Char → List Char × Bool × Nat
  | [] => ([], true, 0)
  | ')' :: _ => ([], true, 1)
  | '\\' :: cs =>
      if atLineEnd cs then ([], false, 1 + malformedLength cs)
      else
        let (c, n) := escape cs
        let (target, valid, m) := takeAddress (cs.drop n)
        (c :: target, valid, 1 + n + m)
  | c :: cs =>
      if isSpace c then ([], endAddress (c :: cs))
      else if breaksAddress c then ([], false, 1 + malformedLength cs)
      else let (target, valid, n) := takeAddress cs; (plain c :: target, valid, n + 1)
termination_by cs => cs.length

def afterAddressHead (name : List Char) (cs : List Char) : Lexeme × Nat :=
  let blanks := blankLength cs
  match cs.drop blanks with
  | '"' :: _ => (.function (String.ofList name), 0)
  | '\'' :: _ => (.function (String.ofList name), 0)
  | body =>
      match takeAddress body with
      | (target, true, n) => (.address (String.ofList target), blanks + n)
      | (_, false, n) => (.refused, blanks + n)

/-- Takes a name, and the round bracket behind it if that makes it a function. -/
def takeWord (cs : List Char) : Lexeme × Nat :=
  let (name, n) := takeName cs
  match cs.drop n with
  | '(' :: rest =>
      if (String.ofList name).toLower = "url" then
        let (lexeme, m) := afterAddressHead name rest
        (lexeme, n + 1 + m)
      else (.function (String.ofList name), n + 1)
  | _ => (.ident (String.ofList name), n)

def signLength : List Char → Nat
  | '+' :: _ => 1
  | '-' :: _ => 1
  | _ => 0

def atDigit : List Char → Bool
  | '.' :: c :: _ => c.isDigit
  | c :: _ => c.isDigit
  | [] => false

/-- The text starts with a number, which may have a sign. -/
def atNumber (cs : List Char) : Bool := atDigit (cs.drop (signLength cs))

def fractionLength : List Char → Nat
  | '.' :: cs =>
      if (cs.takeWhile Char.isDigit).isEmpty then 0 else 1 + (cs.takeWhile Char.isDigit).length
  | _ => 0

def exponentLength : List Char → Nat
  | c :: cs =>
      let sign := signLength cs
      let digits := ((cs.drop sign).takeWhile Char.isDigit).length
      if (c = 'e' ∨ c = 'E') ∧ 0 < digits then 1 + sign + digits else 0
  | [] => 0

/-- The number of characters of the number at the start of a text. -/
def numberLength (cs : List Char) : Nat :=
  let sign := signLength cs
  let whole := sign + ((cs.drop sign).takeWhile Char.isDigit).length
  let decimal := whole + fractionLength (cs.drop whole)
  decimal + exponentLength (cs.drop decimal)

def coarseValue (cs : List Char) : Float :=
  let (negative, body) := Decimal.splitSign cs
  let digit (c : Char) : Float := Float.ofNat (c.toNat - 48)
  let whole := (body.takeWhile Char.isDigit).foldl (fun x c => x * 10 + digit c) 0
  let rest := body.dropWhile Char.isDigit
  let fraction := (rest.take (fractionLength rest)).drop 1
  let (sum, _) :=
    fraction.foldl (fun (x, factor) c => (x + digit c * factor, factor * 0.1)) (0, 0.1)
  let magnitude := whole + sum
  let value := if negative then -magnitude else magnitude
  let power := rest.dropWhile fun c => c == '.' || c.isDigit
  let scaled :=
    if power.isEmpty then value
    else value * (((Decimal.Numeral.read? ('1' :: power)).map Decimal.Numeral.toFloat).getD 1)
  scaled.toFloat32.toFloat

/-- Takes a number with its unit. The value is exact if the unit is written without escapes; behind
an escaped unit it has single precision only. -/
def takeNumber (cs : List Char) : Lexeme × Nat :=
  let n := numberLength cs
  let numeral := cs.take n
  let rest := cs.drop n
  let exact := ((Decimal.Numeral.read? numeral).map Decimal.Numeral.toFloat).getD 0
  match rest with
  | '%' :: _ => (.number exact (some "%"), n + 1)
  | _ =>
      if atName rest then
        let (unit, m) := takeName rest
        let value := if rest.take m == unit then exact else coarseValue numeral
        (.number value (some (String.ofList unit)), n + m)
      else (.number exact none, n)

/-- The next lexeme, and the number of characters it takes behind its first one. Characters that
would form an HTML comment or a match operator are refused together. -/
def next : Char → List Char → Lexeme × Nat
  | '"', cs =>
      let (text, closed, n) := takeString '"' cs
      (.string (String.ofList text) closed, n)
  | '\'', cs =>
      let (text, closed, n) := takeString '\'' cs
      (.string (String.ofList text) closed, n)
  | '#', cs =>
      if atHash cs then let (name, n) := takeName cs; (.hash (String.ofList name), n)
      else (.mark '#', 0)
  | '@', cs =>
      if atName cs then let (name, n) := takeName cs; (.atWord (String.ofList name), n)
      else (.mark '@', 0)
  | '/', '*' :: cs => let (closed, n) := takeComment cs; (.comment closed, n + 1)
  | '<', '!' :: '-' :: '-' :: _ => (.refused, 3)
  | '$', '=' :: _ => (.refused, 1)
  | '*', '=' :: _ => (.refused, 1)
  | '^', '=' :: _ => (.refused, 1)
  | '|', '=' :: _ => (.refused, 1)
  | '~', '=' :: _ => (.refused, 1)
  | c, cs =>
      if isSpace c then (.blank, blankLength cs)
      else if atNumber (c :: cs) then let (lexeme, n) := takeNumber (c :: cs); (lexeme, n - 1)
      else if c == '-' && cs.take 2 == ['-', '>'] then (.refused, 2)
      else if atName (c :: cs) then let (lexeme, n) := takeWord (c :: cs); (lexeme, n - 1)
      else (.mark c, 0)

end Lexeme

end ViewStyle
