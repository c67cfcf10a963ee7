/-
From source texts to a stylesheet: tokens, imports, statements.
-/

import ViewStyle.Stylesheet.Grammar
import ViewStyle.Stylesheet.Import

set_option autoImplicit false

namespace ViewStyle

def defaultExtension : String := "less"

/-- How stylesheets are read: the plugins, the place of files, and the number of values that were
read by plugins before. -/
structure Reader where
  registry : Registry
  source : FileSource
  serial : Nat

namespace Reader

/-- Reads a stylesheet from its tokens. -/
def build (r : Reader) (tokens : List Token) : Except SheetError Builder.State :=
  match Builder.build r.registry r.serial tokens with
  | .error e => .error (.parse e)
  | .ok s => .ok s

/-- Reads a stylesheet from a text, whose imports have some extension if they name none. -/
def ofText (r : Reader) (extension text : String) : Except SheetError Builder.State := do
  r.build (← Import.ofText r.source extension text)

/-- Reads a stylesheet from a file. -/
def ofFile (r : Reader) (file : FileName) : Except SheetError Builder.State := do
  r.build (← Import.ofFile r.source file)

end Reader

end ViewStyle
