/-
The style of one view. A binding remembers what it has set and what the view had before, so that it
sets only what has changed and gives back what is no longer styled.
-/

import ViewStyle.Theme.Basic

set_option autoImplicit false

namespace ViewStyle

/-- Views that can be styled: their class, their properties and subviews by path, and what these
are set to. Setting nothing goes back to the view's own default. -/
class Widget (V : Type) where
  tag : V → String
  hasProperty : V → String → Bool
  propertyValue : V → String → Option Resolved
  setProperty : V → String → Option Resolved → V

/-- A view as plugins see it. -/
def Element.ofView {V : Type} [Widget V] (view : V) : Element :=
  ⟨Widget.tag view, Widget.hasProperty view, Widget.propertyValue view⟩

/-- The tie between a view and its style. What the last applications have set is in `written`, and
what the view had before the first of them in `saved`. -/
structure Binding where
  traitTag : Option String
  environment : Environment
  computed : Style
  automatic : Bool
  written : OrderedMap Resolved
  saved : OrderedMap (Option Resolved)

namespace Binding

def fresh (automatic : Bool) (environment : Environment) : Binding :=
  ⟨none, environment, ∅, automatic, ∅, ∅⟩

def ofTheme {κ : Type} (theme : Theme κ) (appearance : Appearance) : Binding :=
  fresh theme.config.autoApply { appearance }

/-- What values are computed in. -/
def surroundings (b : Binding) (element : Option Element) : Surroundings := ⟨b.environment, element⟩

def property? (b : Binding) (path : String) (element : Option Element) :
    Except PluginError (Option Resolved) :=
  match b.computed.get? path with
  | none => .ok none
  | some value => (value.compute (b.surroundings element)).map some

def constraintsOf (value : Value) (s : Surroundings) :
    Except PluginError (List Layout.Constraint) :=
  match value.compute s with
  | .error e => .error e
  | .ok (.constraints list) => .ok list
  | .ok _ => .ok []

/-- All constraints of the computed properties, in the order of their keys. -/
def constraints (b : Binding) (element : Element) : Except PluginError (List Layout.Constraint) :=
  ((b.computed.all.entries.filter (·.2.isPlugin)).mapM fun e =>
    constraintsOf e.2 (b.surroundings (some element))).map List.flatten

/-- What an application does with a property. -/
inductive Change
  | keep
  | withdraw
  | update (value : Resolved)

/-- The change for a property: a property that the view does not have or that has its value already
is kept, and one that has no plain value is withdrawn. -/
def change (b : Binding) (element : Element) (key : String) (value : Value) : Change :=
  if !element.hasProperty key then .keep
  else
    match value.compute (b.surroundings (some element)) with
    | .error _ => .withdraw
    | .ok (.constraints _) => .withdraw
    | .ok resolved => if b.written.find? key == some resolved then .keep else .update resolved

/-- The keys of a rule that are withdrawn. -/
def withdrawals (b : Binding) (element : Element) (rule : Rule) : List String :=
  rule.entries.filterMap fun (key, value) =>
    match b.change element key value with
    | .withdraw => some key
    | _ => none

/-- The keys of a rule that are set, with their values. -/
def assignments (b : Binding) (element : Element) (rule : Rule) : List (String × Resolved) :=
  rule.entries.filterMap fun (key, value) =>
    match b.change element key value with
    | .update resolved => some (key, resolved)
    | _ => none

section

variable {V : Type} [Widget V]

/-- Gives back what a view had at a key, if the binding has set it. -/
def giveBack (state : Binding × V) (key : String) : Binding × V :=
  let (b, view) := state
  if b.written.contains key then
    ({ b with written := b.written.erase key, saved := b.saved.erase key },
      Widget.setProperty view key (b.saved.find? key).join)
  else (b, view)

/-- Sets a property, and remembers what the view had before the first time. -/
def set (state : Binding × V) (update : String × Resolved) : Binding × V :=
  let (b, view) := state
  let (key, value) := update
  let saved :=
    if b.saved.contains key then b.saved
    else b.saved.insert key (Widget.propertyValue view key)
  ({ b with saved, written := b.written.insert key value },
    Widget.setProperty view key (some value))

/-- The keys that were set and are no longer styled. -/
def leftover (b : Binding) : List String := b.written.keys.filter (!b.computed.all.contains ·)

/-- Writes the computed properties to a view, or only the important ones, and counts those that
were set. What is withdrawn is given back first; what is no longer styled is given back at the end,
but not if only important properties are written. -/
def apply (b : Binding) (view : V) (onlyImportant : Bool) : Binding × V × Nat :=
  let rule := if onlyImportant then b.computed.important else b.computed.all
  let element := Element.ofView view
  let assignments := b.assignments element rule
  let cleared := (b.withdrawals element rule).foldl giveBack (b, view)
  let (b, view) := assignments.foldl set cleared
  let (b, view) := if onlyImportant then (b, view) else b.leftover.foldl giveBack (b, view)
  (b, view, assignments.length)

/-- Computes the style anew, and applies it if the binding does so by itself. -/
def restyle {κ : Type} (b : Binding) (theme : Theme κ) (view : V) : Binding × V :=
  let context : Context := ⟨Widget.tag view, b.traitTag, b.environment⟩
  let b := { b with computed := theme.compute context }
  if b.automatic then
    let (b, view, _) := b.apply view false
    (b, view)
  else (b, view)

def setTrait {κ : Type} (b : Binding) (theme : Theme κ) (view : V) (traitTag : Option String) :
    Binding × V :=
  { b with traitTag }.restyle theme view

def setEnvironment {κ : Type} (b : Binding) (theme : Theme κ) (view : V)
    (environment : Environment) : Binding × V :=
  { b with environment }.restyle theme view

end

end Binding

end ViewStyle
