/-
A place in a YAML text together with the characters that follow it. Every line ends in one
character: a line feed, a line or paragraph separator, or a carriage return, which stands for itself
and a line feed behind it.
-/

import ViewStyle.Text.Position

set_option autoImplicit false

namespace ViewStyle.Yaml

def isBlank (c : Char) : Bool := c == ' ' || c == '\t'

def isBreak (c : Char) : Bool := c == '\n' || c == '\r' || c == '\u2028' || c == '\u2029'

def isSpace (c : Char) : Bool := isBlank c || isBreak c

def isMark (c : Char) : Bool := c == '\ufeff'

def normalize : List Char → List Char
  | [] => []
  | '\r' :: '\n' :: cs => '\r' :: normalize cs
  | c :: cs => (if c == '\r' || c == '\u0085' then '\n' else c) :: normalize cs

def width (c : Char) : Nat := if c == '\r' then 2 else 1

def lineEnds (cs : List Char) : List Char :=
  (cs.filter isBreak).map fun c => if c == '\r' then '\n' else c

def endsWord : List Char → Bool
  | [] => true
  | c :: _ => isSpace c

def isNameChar (c : Char) : Bool := c.isAlphanum || c == '_' || c == '-'

def byteSize (cs : List Char) : Nat := cs.foldl (fun n c => n + c.utf8Size) 0

/-- Lines and columns count from zero, and `offset` is the number of bytes before. The characters
that follow may be cut off somewhere before the end of the text. -/
structure Cursor where
  rest : List Char
  line : Nat := 0
  column : Nat := 0
  offset : Nat := 0
  cut : Bool := false

namespace Cursor

def position (c : Cursor) : Text.Position := ⟨c.line + 1, c.column + 1⟩

/-- Goes over some characters. -/
def skip (c : Cursor) (n : Nat) : Cursor :=
  let passed := c.rest.take n
  let breaks := passed.countP isBreak
  { c with
    rest := c.rest.drop n
    line := c.line + breaks
    column :=
      if breaks = 0 then c.column + passed.length
      else (passed.reverse.takeWhile (!isBreak ·)).length
    offset := c.offset + byteSize passed }

private theorem length_skip (c : Cursor) (n : Nat) :
    (c.skip n).rest.length = c.rest.length - n := by
  simp [skip]

theorem length_skip_le (c : Cursor) (n : Nat) : (c.skip n).rest.length ≤ c.rest.length := by
  rw [length_skip]
  exact Nat.sub_le _ _

theorem length_skip_lt (c : Cursor) {n : Nat} (h : 0 < n ∧ c.rest.isEmpty = false) :
    (c.skip n).rest.length < c.rest.length := by
  have nonempty : 0 < c.rest.length := List.length_pos_iff.mpr (by simpa using h.2)
  rw [length_skip]
  omega

def sees (c : Cursor) (n : Nat) : Bool := !c.cut || n ≤ (c.rest.take n).foldl (· + width ·) 0

def skipWhile (c : Cursor) (p : Char → Bool) : Cursor := c.skip (c.rest.takeWhile p).length

theorem length_skipWhile_le (c : Cursor) (p : Char → Bool) :
    (c.skipWhile p).rest.length ≤ c.rest.length :=
  c.length_skip_le _

def skipComment (c : Cursor) : Cursor :=
  if c.rest.head? = some '#' then c.skipWhile (!isBreak ·) else c

theorem length_skipComment_le (c : Cursor) : c.skipComment.rest.length ≤ c.rest.length := by
  unfold skipComment
  split
  · exact c.length_skipWhile_le _
  · exact Nat.le_refl _

def endLine? (c : Cursor) : Option Cursor :=
  let c := (c.skipWhile isBlank).skipComment
  match c.rest with
  | [] => some c
  | b :: _ => if isBreak b then some (c.skip 1) else none

def isAt (c : Cursor) (mark : List Char) : Bool :=
  c.column == 0 && mark.isPrefixOf c.rest && endsWord (c.rest.drop mark.length)

def atDocumentStart (c : Cursor) : Bool := c.isAt ['-', '-', '-']

def atDocumentEnd (c : Cursor) : Bool := c.isAt ['.', '.', '.']

def atDocumentMark (c : Cursor) : Bool := c.atDocumentStart || c.atDocumentEnd

end Cursor

end ViewStyle.Yaml
