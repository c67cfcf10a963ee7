/-
Tokens of a YAML text. Block collections are marked only by their indentation; their tokens stand
where a collection starts and ends.
-/

import ViewStyle.Yaml.Property

set_option autoImplicit false

namespace ViewStyle.Yaml

inductive Token.Kind
  | directive (directive : Directive)
  | documentStart
  | documentEnd
  | sequenceStart (flow : Bool)
  | mappingStart (flow : Bool)
  | blockEnd
  | sequenceEnd
  | mappingEnd
  | item
  | comma
  | key
  | value
  | alias (name : String)
  | anchor (name : String)
  | tag (name : TagName)
  | scalar (text : String) (style : Style)
  | streamEnd
  deriving DecidableEq

structure Token where
  kind : Token.Kind
  position : Text.Position
  deriving DecidableEq

end ViewStyle.Yaml
