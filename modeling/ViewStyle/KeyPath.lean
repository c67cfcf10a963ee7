/-
Paths of properties: names between dots. Inside a name a hyphen is no more than a sign that the
next letter is a capital one, so that both spellings of a name give the same path.
-/

import ViewStyle.Text.Capital

set_option autoImplicit false

namespace ViewStyle

/-- A path in its normal form. -/
structure KeyPath where
  text : String
  deriving DecidableEq

namespace KeyPath

/-- Takes the hyphens away. `started` tells whether the current name has a character yet, and
`raised` whether the next one is to be a capital. -/
def withoutHyphens (started raised : Bool) : List Char → List Char
  | [] => []
  | '.' :: cs => '.' :: withoutHyphens false false cs
  | '-' :: cs => withoutHyphens started started cs
  | c :: cs => (if raised then Text.capital c else [c]) ++ withoutHyphens true false cs

/-- The normal form of a path. -/
def ofText (path : String) : KeyPath := ⟨String.ofList (withoutHyphens false false path.toList)⟩

def names (path : String) : List String := (path.split '.').toList.map String.Slice.copy

def segments (k : KeyPath) : List String := names k.text

end KeyPath

end ViewStyle
