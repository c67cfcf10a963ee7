/-
Why a stylesheet cannot be read.
-/

import ViewStyle.Condition.Error
import ViewStyle.Location
import ViewStyle.Selector
import ViewStyle.Value

set_option autoImplicit false

namespace ViewStyle

open Text (Span)

/-- The most files that are read for one stylesheet. -/
def fileLimit : Nat := 1024

/-- What the grammar asks for at some place. -/
inductive Expectation
  | selector
  | variableBlock
  | selectorEnd
  | closingBrace
  | definition
  | assignment
  | value
  | closingSquare
  | nestedBlock
  | property
  | colon
  | valueEnd
  | semicolon
  | fileName
  | declaration
  deriving DecidableEq

def Expectation.text : Expectation → String
  | .selector => "a selector"
  | .variableBlock => "'\x7b' after '@global'"
  | .selectorEnd => "',' or '\x7b'"
  | .closingBrace => "'\x7d'"
  | .definition => "a variable definition '@name = value'"
  | .assignment => "'=' or ':'"
  | .value => "a value"
  | .closingSquare => "']'"
  | .nestedBlock => "'\x7b' after nested selector"
  | .property => "a property name or a nested '&' block"
  | .colon => "':'"
  | .valueEnd => "';' or '\x7d'"
  | .semicolon => "';'"
  | .fileName => "a quoted file name after '@import'"
  | .declaration => "a declaration"

/-- What there is instead. -/
inductive Finding
  | token (kind : Token.Kind)
  | endOfInput
  | blockInValue
  | colonInValue
  | nestedImport
  deriving DecidableEq

def Finding.text : Finding → String
  | .token kind => kind.label
  | .endOfInput => "end of input"
  | .blockInValue => "'\x7b' (nested blocks must start with '&')"
  | .colonInValue => "':' (missing ';' after the previous declaration?)"
  | .nestedImport => "'@import' (imports are only allowed at the top level)"

inductive SelectorFault
  | missingClass
  | missingTrait (found : Option Token.Kind)
  | conflict (c : Selector.Conflict)
  deriving DecidableEq

def SelectorFault.message : SelectorFault → String
  | .missingClass => "'.' must be followed by a class name"
  | .missingTrait none => "expected a trait name after ':'"
  | .missingTrait (some kind) => "expected a trait name after ':', found " ++ kind.label
  | .conflict c => c.message

inductive ReadFault
  | unexpected (expected : Expectation) (found : Finding)
  | undefinedVariable (name : String)
  | importCycle (chain : List String)
  | tooManyImports
  | malformedSelector (fault : SelectorFault)
  | malformedCondition (fault : ConditionFault)
  | unknownDirective (name : String)
  | plugin (error : PluginError)
  deriving DecidableEq

def ReadFault.message : ReadFault → String
  | .unexpected expected found => s!"expected {expected.text}, found {found.text}"
  | .undefinedVariable name => s!"undefined variable '@{name}'"
  | .importCycle chain => "import cycle: " ++ " -> ".intercalate chain
  | .tooManyImports => s!"more than {fileLimit} imports expanded"
  | .malformedSelector fault => s!"malformed selector: {fault.message}"
  | .malformedCondition fault => s!"malformed condition: {fault.message}"
  | .unknownDirective name => s!"unknown directive '@{name}'"
  | .plugin error => error.message

/-- A fault and its place, if it has one. -/
structure ReadError where
  fault : ReadFault
  span : Option Span
  deriving DecidableEq

def ReadError.message (e : ReadError) : String :=
  match e.span with
  | some span => s!"{e.fault.message} at {span.text}"
  | none => e.fault.message

def ReadError.ofCondition (e : ConditionError) (span : Option Span) : ReadError :=
  ⟨.malformedCondition e.fault, e.span.or span⟩

/-- A file of the stylesheet is missing, has no tokens, or cannot be parsed. -/
inductive SheetError
  | lex (error : ScanError)
  | parse (error : ReadError)
  | load (error : FileError)
  deriving DecidableEq

def SheetError.message : SheetError → String
  | .lex error => error.message
  | .parse error => error.message
  | .load error => error.message

end ViewStyle
