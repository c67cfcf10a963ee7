/-
Quoted scalars. In single quotes two of them stand for one; in double quotes a backslash starts an
escape, or takes the end of its line away.
-/

import ViewStyle.Yaml.Scalar.Basic

set_option autoImplicit false

namespace ViewStyle.Yaml

def escapes : List (Char × Char) :=
  [('0', '\x00'), ('a', '\x07'), ('b', '\x08'), ('t', '\t'), ('\t', '\t'), ('n', '\n'),
    ('v', '\x0b'), ('f', '\x0c'), ('r', '\r'), ('e', '\x1b'), (' ', ' '), ('"', '"'), ('/', '/'),
    ('\\', '\\'), ('N', '\u0085'), ('_', '\u00a0'), ('L', '\u2028'), ('P', '\u2029')]

def escapeLength? : Char → Option Nat
  | 'x' => some 2
  | 'u' => some 4
  | 'U' => some 8
  | _ => none

def escape? : List Char → Option (Char × Nat)
  | [] => none
  | c :: cs =>
      match escapeLength? c with
      | none => (escapes.lookup c).map (·, 1)
      | some n => do
          let code ← if cs.length < n then none else hexNumber? (cs.take n)
          if code.isValidChar then some (Char.ofNat code, n + 1) else none

/-- What a part of a quoted scalar stands for, the number of its characters, and how many have to be
known behind it. -/
inductive QuotedPart
  | text (value : List Char) (length ahead : Nat)
  | close
  deriving DecidableEq

def wordPart (c : Char) (length : Nat) : QuotedPart := .text [c] length 2

def gapPart (gap : List Char) : QuotedPart := .text (fold gap) gap.length 4

def joinPart (cs : List Char) : QuotedPart :=
  let gap := cs.takeWhile isSpace
  .text (lineEnds gap) (gap.length + 2) (if cs.head? = some '"' then 1 else 4)

def singlePart? : List Char → Option QuotedPart
  | [] => none
  | '\'' :: '\'' :: _ => some (wordPart '\'' 2)
  | '\'' :: _ => some .close
  | c :: cs =>
      if isSpace c then some (gapPart (c :: cs.takeWhile isSpace)) else some (wordPart c 1)

def doublePart? : List Char → Option QuotedPart
  | [] => none
  | '"' :: _ => some .close
  | '\\' :: cs =>
      if cs.head?.any isBreak then some (joinPart cs.tail)
      else (escape? cs).map fun (c, n) => wordPart c (n + 1)
  | c :: cs =>
      if isSpace c then some (gapPart (c :: cs.takeWhile isSpace)) else some (wordPart c 1)

/-- Reads on up to the closing quote, which no document mark may stand before. `text` is what was
read, the latest first. -/
def takeQuoted (double : Bool) (text : List Char) (c : Cursor) : Option (List Char × Cursor) :=
  if c.atDocumentMark then none
  else
    match if double then doublePart? c.rest else singlePart? c.rest with
    | none => none
    | some .close => some (text.reverse, c.skip 1)
    | some (.text value length ahead) =>
        if 0 < length ∧ c.rest.isEmpty = false then
          let next := c.skip length
          if next.sees ahead then takeQuoted double (value.reverse ++ text) next else none
        else none
termination_by c.rest.length
decreasing_by
  rename_i positive _
  exact c.length_skip_lt positive

end ViewStyle.Yaml
