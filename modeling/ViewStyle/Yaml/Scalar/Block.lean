/-
Block scalars: the lines behind a bar keep their ends, and those behind an angle are folded. All
lines lose the indentation of the first one, or the one that the mark demands.
-/

import ViewStyle.Yaml.Scalar.Basic

set_option autoImplicit false

namespace ViewStyle.Yaml

inductive Chomping
  | strip
  | clip
  | keep
  deriving DecidableEq

def chomping? : Char → Option Chomping
  | '-' => some .strip
  | '+' => some .keep
  | _ => none

def increment? (c : Char) : Option Nat := if c.isDigit then some (c.toNat - 48) else none

def blockHeader (cs : List Char) : Chomping × Option Nat × Nat :=
  let chomp (n : Nat) := cs[n]?.bind chomping?
  let digit (n : Nat) := cs[n]?.bind increment?
  match chomp 0, digit 0 with
  | some chomping, _ =>
      match digit 1 with
      | some n => (chomping, some n, 2)
      | none => (chomping, none, 1)
  | none, some n =>
      match chomp 1 with
      | some chomping => (chomping, some n, 2)
      | none => (.clip, some n, 1)
  | none, none => (.clip, none, 0)

def indentation? (column widest : Nat) : List Char → Option Nat
  | [] => some (max widest column)
  | c :: cs =>
      if c == ' ' then indentation? (column + 1) widest cs
      else if c == '\t' then none
      else if isBreak c then indentation? 0 (max widest column) cs
      else some (max widest column)

/-- A block scalar up to some line: its text with the latest character first, the end of the last
line that is not empty, the ends of the empty lines behind that, and whether that line starts with a
blank. -/
structure Block where
  text : List Char := []
  ending : List Char := []
  breaks : List Char := []
  spaced : Bool := false

namespace Block

def joint (b : Block) (folded spaced : Bool) : List Char :=
  if folded && b.ending == ['\n'] && !b.spaced && !spaced then
    if b.breaks.isEmpty then [' '] else b.breaks
  else b.ending ++ b.breaks

def add (b : Block) (folded : Bool) (line ending : List Char) : Block :=
  let spaced := line.head?.any isBlank
  { text := line.reverse ++ ((b.joint folded spaced).reverse ++ b.text)
    ending
    breaks := []
    spaced }

def close (b : Block) : Chomping → List Char
  | .strip => b.text.reverse
  | .clip => b.text.reverse ++ b.ending
  | .keep => b.text.reverse ++ (b.ending ++ b.breaks)

def take (folded : Bool) (indent : Nat) (b : Block) (c : Cursor) : Option (Block × Cursor) :=
  let margin := min (c.rest.takeWhile (· == ' ')).length (indent - c.column)
  let inner := c.skip margin
  match inner.rest with
  | [] => some (b, inner)
  | first :: _ =>
      if first == '\t' && inner.column < indent then none
      else if inner.rest.isEmpty = false then
        if isBreak first then
          take folded indent { b with breaks := b.breaks ++ lineEnds [first] } (inner.skip 1)
        else if inner.column ≠ indent then some (b, inner)
        else
          let line := inner.rest.takeWhile (!isBreak ·)
          let ending := lineEnds ((inner.rest.drop line.length).take 1)
          take folded indent (b.add folded line ending) (inner.skip (line.length + 1))
      else none
termination_by c.rest.length
decreasing_by
  · rename_i nonempty _
    exact Nat.lt_of_lt_of_le (Cursor.length_skip_lt _ ⟨Nat.one_pos, nonempty⟩) (c.length_skip_le _)
  · rename_i nonempty _ _
    exact Nat.lt_of_lt_of_le (Cursor.length_skip_lt _ ⟨Nat.succ_pos _, nonempty⟩)
      (c.length_skip_le _)

end Block

/-- Reads a block scalar at its sign; its lines start in column `least` at least. -/
def takeBlock (folded : Bool) (least : Nat) (c : Cursor) : Option (List Char × Cursor) := do
  let inner := c.skip 1
  let (chomping, increment, length) := blockHeader inner.rest
  let start ← (inner.skip length).endLine?
  let indent ←
    match increment with
    | some 0 => none
    | some n => some (least - 1 + n)
    | none => (indentation? start.column 0 start.rest).map fun n => max (max n least) 1
  let (block, behind) ← Block.take folded indent {} start
  return (block.close chomping, behind)

end ViewStyle.Yaml
