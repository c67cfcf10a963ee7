/-
JSON documents as text, on one line or with two spaces of indent for each level.
-/

import ViewStyle.Decimal.Notation
import ViewStyle.Text.Quoted

set_option autoImplicit false

namespace ViewStyle

/-- A JSON value; an object lists its members in order. -/
inductive Document
  | bool (value : Bool)
  | number (value : Float)
  | text (value : String)
  | object (members : List (String × Document))

namespace Document

def boolText (value : Bool) : String := if value then "true" else "false"

mutual

def compact : Document → String
  | .bool value => boolText value
  | .number value => Decimal.document value
  | .text value => Text.json value
  | .object members => "\x7b" ++ ",".intercalate (compactMembers members) ++ "\x7d"

def compactMembers : List (String × Document) → List String
  | [] => []
  | (name, value) :: rest => (Text.json name ++ ":" ++ compact value) :: compactMembers rest

end

def newLine (level : Nat) : String := "\n" ++ String.ofList (List.replicate (2 * level) ' ')

mutual

def prettyAt (level : Nat) : Document → String
  | .bool value => boolText value
  | .number value => Decimal.document value
  | .text value => Text.json value
  | .object [] => "\x7b\x7d"
  | .object members =>
      "\x7b" ++ ",".intercalate (prettyMembers (level + 1) members) ++ newLine level ++ "\x7d"

def prettyMembers (level : Nat) : List (String × Document) → List String
  | [] => []
  | (name, value) :: rest =>
      (newLine level ++ Text.json name ++ ": " ++ prettyAt level value) :: prettyMembers level rest

end

def pretty (d : Document) : String := prettyAt 0 d

end Document

end ViewStyle
