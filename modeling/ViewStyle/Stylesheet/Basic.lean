/-
A stylesheet as it is used: its rules and the last values of its variables.
-/

import ViewStyle.Stylesheet.Table

set_option autoImplicit false

namespace ViewStyle

structure Stylesheet where
  rules : Rules
  globals : Rule

namespace Stylesheet

def empty : Stylesheet := ⟨∅, ∅⟩

instance : EmptyCollection Stylesheet := ⟨empty⟩

/-- The value of a variable, whose name is spelled like a property. -/
def valueOf? (s : Stylesheet) (name : String) : Option Value := s.globals.get? name

def isEmpty (s : Stylesheet) : Bool := s.rules.isEmpty && s.globals.isEmpty

end Stylesheet

end ViewStyle
