/-
Where a character stands in a text: lines end at a line feed, a carriage return, the two together
or a form feed, and columns count UTF-16 units from one.
-/

set_option autoImplicit false

namespace ViewStyle.Text

/-- The characters that end a line. -/
def endsLine (c : Char) : Bool := c == '\n' || c == '\r' || c == '\x0c'

def units (c : Char) : Nat := if c.toNat < 0x10000 then 1 else 2

structure Position where
  line : Nat
  column : Nat
  deriving DecidableEq

namespace Position

/-- Every text starts in the first column of its first line. -/
def start : Position := ⟨1, 1⟩

/-- The position behind some text; a carriage return and a line feed end one line together. -/
def after : Position → List Char → Position
  | p, [] => p
  | p, '\r' :: '\n' :: cs => after ⟨p.line + 1, 1⟩ cs
  | p, c :: cs =>
      if endsLine c then after ⟨p.line + 1, 1⟩ cs else after ⟨p.line, p.column + units c⟩ cs

end Position

/-- A position together with the name of the text it lies in, if that has one. -/
structure Span where
  origin : Option String
  position : Position
  deriving DecidableEq

def Span.text : Span → String
  | ⟨some origin, ⟨line, column⟩⟩ => s!"{origin}:{line}:{column}"
  | ⟨none, ⟨line, column⟩⟩ => s!"line {line}, column {column}"

end ViewStyle.Text
