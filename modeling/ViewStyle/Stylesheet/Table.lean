/-
The rules of a stylesheet. Every selector has one rule, at the place where the selector comes up
first; every property remembers the number of the declaration that set it last.
-/

import ViewStyle.Rule
import ViewStyle.Selector

set_option autoImplicit false

namespace ViewStyle

/-- A value and the number of its declaration. -/
structure Declared where
  value : Value
  order : Nat

/-- A selector and what is declared for it. -/
structure Entry where
  selector : Selector
  declared : OrderedMap Declared

def Entry.rule (e : Entry) : Rule := ⟨e.declared.mapValues (·.value)⟩

structure Rules where
  entries : List Entry
  count : Nat

namespace Rules

def empty : Rules := ⟨[], 0⟩

instance : EmptyCollection Rules := ⟨empty⟩

/-- The entry of a selector. -/
def find? (t : Rules) (s : Selector) : Option Entry := t.entries.find? (·.selector.same s)

def position? (t : Rules) (s : Selector) : Option Nat :=
  t.entries.findIdx? (·.selector.same s)

/-- Adds a selector with an empty rule if it is new. -/
def introduce (t : Rules) (s : Selector) : Rules :=
  if (t.find? s).isSome then t else { t with entries := t.entries ++ [⟨s, ∅⟩] }

/-- Numbers the next declaration, from one on. -/
def nextOrder (t : Rules) : Nat × Rules :=
  (t.count + 1, { t with count := t.count + 1 })

/-- Sets a property of one selector as part of a numbered declaration. -/
def declare (t : Rules) (s : Selector) (key : KeyPath) (value : Value) (order : Nat) :
    Rules :=
  let added := t.introduce s
  { added with
    entries := added.entries.map fun e =>
      if e.selector.same s then { e with declared := e.declared.insert key.text ⟨value, order⟩ }
      else e }

def get? (t : Rules) (s : Selector) : Option Rule := (t.find? s).map Entry.rule

def declarations (t : Rules) (s : Selector) : List (String × Declared) :=
  ((t.find? s).map (·.declared.entries)).getD []

def size (t : Rules) : Nat := t.entries.length

def isEmpty (t : Rules) : Bool := t.entries.isEmpty

end Rules

end ViewStyle
