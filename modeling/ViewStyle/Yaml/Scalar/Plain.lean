/-
Plain scalars: words without quotes. One ends before a comment, before the colon of a key and,
inside a flow collection, before the marks of that.
-/

import ViewStyle.Yaml.Scalar.Basic

set_option autoImplicit false

namespace ViewStyle.Yaml

def isFlowMark (c : Char) : Bool := c == ',' || c == '[' || c == ']' || c == '\x7b' || c == '\x7d'

def atTouchingColon : List Char → Bool
  | ':' :: c :: _ => isFlowMark c || c == '?'
  | _ => false

def takeWord (flow : Bool) : List Char → List Char
  | [] => []
  | c :: cs =>
      if isSpace c || (c == ':' && endsWord cs) ||
          (flow && (isFlowMark c || atTouchingColon (c :: cs))) then []
      else c :: takeWord flow cs

def hasTab (least : Nat) : Option Nat → List Char → Bool
  | _, [] => false
  | column, c :: cs =>
      if isBreak c then hasTab least (some 0) cs
      else (c == '\t' && column.any (· < least)) || hasTab least (column.map (· + 1)) cs

/-- A scalar that was read, whether a line ended behind it, and where the text goes on. -/
structure Plain where
  text : List Char
  ended : Bool
  cursor : Cursor

/-- Reads on behind some text, which is given with the latest character first, and a gap. Further
lines start in column `least` at least. Where a word starts, a document mark has to be told from it,
and where it ends, the colon of a key from one that belongs to it. -/
def takePlain (flow : Bool) (least : Nat) (text gap : List Char) (c : Cursor) : Option Plain :=
  if !c.sees 4 then none
  else if c.atDocumentMark || c.rest.head? == some '#' then
    some ⟨text.reverse, gap.any isBreak, c⟩
  else
    let word := takeWord flow c.rest
    let behind := c.skip word.length
    let found := if word.isEmpty then text else word.reverse ++ ((fold gap).reverse ++ text)
    let next := behind.rest.takeWhile isSpace
    if flow && atTouchingColon behind.rest then none
    else if next.isEmpty then
      if behind.sees 2 then some ⟨found.reverse, word.isEmpty && gap.any isBreak, behind⟩ else none
    else if hasTab least none next then none
    else
      let after := behind.skip next.length
      if !after.sees 1 then none
      else if !flow && after.column < least then some ⟨found.reverse, next.any isBreak, after⟩
      else takePlain flow least found next after
termination_by c.rest.length
decreasing_by
  rename_i nonempty _ _ _
  have shorter := (List.takeWhile_prefix isSpace (l := behind.rest)).length_le
  have positive : 0 < next.length := List.length_pos_iff.mpr (by simpa using nonempty)
  have left : behind.rest.isEmpty = false := by
    have := List.length_pos_iff.mp (Nat.lt_of_lt_of_le positive shorter)
    simpa using this
  exact Nat.lt_of_lt_of_le (behind.length_skip_lt ⟨positive, left⟩) (c.length_skip_le _)

end ViewStyle.Yaml
