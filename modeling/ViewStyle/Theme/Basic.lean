/-
A theme holds the stylesheet in use. A load reads a whole stylesheet first and then puts it in
the place of the old one; if that fails, an empty one takes the place. After every load those who
have subscribed are told.
-/

import ViewStyle.Cascade
import ViewStyle.Config.Basic
import ViewStyle.Stylesheet.Source

set_option autoImplicit false

namespace ViewStyle

/-- A theme with callbacks of some kind. Subscriptions are listed from the first to the last, and
each has a number that no other one ever gets. -/
structure Theme (κ : Type) where
  config : Config
  loader : Loader
  registry : Registry
  sheet : Stylesheet
  file : FileName
  place : Location
  subscriptions : List (Nat × κ)
  nextId : Nat
  serial : Nat

namespace Theme

variable {κ : Type}

/-- A fresh theme. Its file is the configured entry point. -/
def ofConfig (config : Config) (loader : Loader) : Theme κ where
  config := config
  loader := loader
  registry := if config.builtinPlugins then Registry.builtins else []
  sheet := ∅
  file := config.entryPoint
  place := config.location
  subscriptions := []
  nextId := 0
  serial := 0

def register (t : Theme κ) (plugin : Plugin) : Theme κ :=
  { t with registry := t.registry ++ [plugin] }

/-- How the theme reads files of a location. -/
def reader (t : Theme κ) (place : Location) : Reader :=
  ⟨t.registry, fun file => t.loader file place, t.serial⟩

/-- Puts what was read in the place of the stylesheet. -/
def adopt (t : Theme κ) : Except SheetError Builder.State → Theme κ
  | .ok s => { t with sheet := s.sheet, serial := s.serial }
  | .error _ => { t with sheet := ∅ }

/-- The error of a load that failed. -/
def failure? : Except SheetError Builder.State → Option SheetError
  | .ok _ => none
  | .error error => some error

def load (t : Theme κ) (text : String) : Theme κ × Option SheetError :=
  let result := (t.reader t.config.location).ofText t.config.entryPoint.extension text
  (t.adopt result, failure? result)

def loadFile (t : Theme κ) (file : FileName) (place : Location) : Theme κ × Option SheetError :=
  let result := (t.reader place).ofFile file
  ({ t with file, place }.adopt result, failure? result)

def reload (t : Theme κ) : Theme κ × Option SheetError := t.loadFile t.file t.place

/-- The style of a view in a context. -/
def compute (t : Theme κ) (c : Context) : Style := t.sheet.compute c

def valueOf? (t : Theme κ) (name : String) : Option Value := t.sheet.valueOf? name

def subscribe (t : Theme κ) (callback : κ) : Nat × Theme κ :=
  (t.nextId,
    { t with subscriptions := t.subscriptions ++ [(t.nextId, callback)], nextId := t.nextId + 1 })

def unsubscribe (t : Theme κ) (id : Nat) : Bool × Theme κ :=
  (t.subscriptions.any (·.1 == id),
    { t with subscriptions := t.subscriptions.filter (·.1 != id) })

def callbacks (t : Theme κ) : List κ := t.subscriptions.map (·.2)

end Theme

end ViewStyle
