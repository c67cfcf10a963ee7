/-
What the style of a view depends on besides its class: the traits of its interface, its size, free
named values, and its trait tag.
-/

import ViewStyle.OrderedMap
import ViewStyle.Decimal.Notation

set_option autoImplicit false

namespace ViewStyle

/-- A value that conditions compute with. -/
inductive Scalar
  | number (value : Float)
  | text (value : String)
  | bool (value : Bool)

def Scalar.type : Scalar → String
  | .number _ => "number"
  | .text _ => "text"
  | .bool _ => "boolean"

inductive Appearance
  | light
  | dark
  deriving DecidableEq

def Appearance.name : Appearance → String
  | .light => "light"
  | .dark => "dark"

inductive SizeClass
  | unspecified
  | compact
  | regular
  deriving DecidableEq

def SizeClass.name : SizeClass → String
  | .unspecified => "unspecified"
  | .compact => "compact"
  | .regular => "regular"

/-- The kind of device that shows the view. -/
inductive Idiom
  | unspecified
  | phone
  | pad
  | tv
  | desktop
  deriving DecidableEq

def Idiom.name : Idiom → String
  | .unspecified => "unspecified"
  | .phone => "phone"
  | .pad => "pad"
  | .tv => "tv"
  | .desktop => "desktop"

/-- Interface traits and size of a view, in points, and further values by name. -/
structure Environment where
  width : Float := 0
  height : Float := 0
  scale : Float := 1
  horizontal : SizeClass := .unspecified
  vertical : SizeClass := .unspecified
  idiom : Idiom := .unspecified
  appearance : Appearance := .light
  values : OrderedMap Scalar := ∅

/-- The view that a style is computed for: selectors match its class and its trait tag, conditions
look into its environment. -/
structure Context where
  className : String
  traitTag : Option String
  environment : Environment

def Context.lookup (c : Context) : String → Option Scalar
  | "width" => some (.number c.environment.width)
  | "size.width" => some (.number c.environment.width)
  | "height" => some (.number c.environment.height)
  | "size.height" => some (.number c.environment.height)
  | "horizontal" => some (.text c.environment.horizontal.name)
  | "vertical" => some (.text c.environment.vertical.name)
  | "idiom" => some (.text c.environment.idiom.name)
  | "scale" => some (.number c.environment.scale)
  | "appearance" => some (.text c.environment.appearance.name)
  | "trait" => some (.text (c.traitTag.getD ""))
  | name => c.environment.values.find? name

end ViewStyle
