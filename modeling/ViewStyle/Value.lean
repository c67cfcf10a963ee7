/-
Declared values, the plugins that give some of them a meaning, and what is applied to a view at
last. A value is a literal, or it belongs to a plugin and is computed for the view that asks.
-/

import ViewStyle.Document
import ViewStyle.Environment
import ViewStyle.Layout.Reader
import ViewStyle.Literal

set_option autoImplicit false

namespace ViewStyle

/-- Something that only a plugin and the view know. Its identity tells it from others that look
alike; one without identity is never equal to anything. -/
structure CustomObject where
  identity : Option Nat
  content : String

instance : BEq CustomObject where
  beq a b :=
    match a.identity, b.identity with
    | some i, some j => i == j
    | _, _ => false

/-- What a property of a view is set to, or the layout constraints that a value stands for. -/
inductive Resolved
  | literal (value : Literal)
  | constraints (list : List Layout.Constraint)
  | custom (object : CustomObject)
  deriving BEq

/-- What a plugin can see of a view. -/
structure Element where
  tag : String
  hasProperty : String → Bool
  propertyValue : String → Option Resolved

/-- What a plugin computes a value in; there may be no view. -/
structure Surroundings where
  environment : Environment
  element : Option Element

structure PluginError where
  plugin : String
  detail : String
  deriving DecidableEq

def PluginError.message (e : PluginError) : String := e.plugin ++ ": " ++ e.detail

/-- A way to compute a value. -/
abbrev Computation : Type := Surroundings → Except PluginError Resolved

/-- A plugin claims some texts and reads them once. The number it is given with a text is another
one for every value, so that it can serve as an identity. -/
structure Plugin where
  name : String
  claims : String → Bool
  read : String → Nat → Except PluginError Computation

def Plugin.constraint : Plugin where
  name := "constraint"
  claims := Layout.isCall
  read raw _ :=
    match Layout.Template.read raw with
    | .error fault => .error ⟨"constraint", fault.message⟩
    | .ok template => .ok fun surroundings =>
        match surroundings.element with
        | none => .ok (.constraints [])
        | some element => .ok (.constraints (template.resolve element.hasProperty))

/-- Plugins in the order in which they are asked. -/
abbrev Registry : Type := List Plugin

namespace Registry

def builtins : Registry := [.constraint]

def names (r : Registry) : List String := r.map (·.name)

/-- The first plugin that claims a text. -/
def claimant? (r : Registry) (raw : String) : Option Plugin := r.find? (·.claims raw)

end Registry

/-- A value that a plugin has read. -/
structure PluginValue where
  plugin : String
  compute : Computation

instance : BEq PluginValue := ⟨fun a b => a.plugin == b.plugin⟩

inductive Content
  | literal (value : Literal)
  | plugin (value : PluginValue)
  deriving BEq

/-- A declared value with its text. -/
structure Value where
  content : Content
  raw : String
  important : Bool
  deriving BEq

namespace Value

/-- A literal that was not read from a text. -/
def ofLiteral (value : Literal) : Value := ⟨.literal value, value.plainText, false⟩

def isPlugin (v : Value) : Bool :=
  match v.content with
  | .literal _ => false
  | .plugin _ => true

/-- What a value is in some surroundings. -/
def compute (v : Value) (surroundings : Surroundings) : Except PluginError Resolved :=
  match v.content with
  | .literal value => .ok (.literal value)
  | .plugin value => value.compute surroundings

end Value

def Literal.document : Literal → Document
  | .number value => .number value
  | .text value => .text value
  | .color value => .text value.hex
  | .bool value => .bool value

def Value.document (v : Value) : Document :=
  let content :=
    match v.content with
    | .literal value => [("value", value.document)]
    | .plugin value => [("plugin", Document.text value.plugin), ("raw", Document.text v.raw)]
  .object (content ++ if v.important then [("important", .bool true)] else [])

end ViewStyle
