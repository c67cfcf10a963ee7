/-
Properties with their values. Keys are paths in normal form, and every spelling of a path finds the
same entry.
-/

import ViewStyle.KeyPath
import ViewStyle.OrderedMap
import ViewStyle.Value

set_option autoImplicit false

namespace ViewStyle

structure Rule where
  values : OrderedMap Value

namespace Rule

def empty : Rule := ⟨∅⟩

instance : EmptyCollection Rule := ⟨empty⟩

instance : BEq Rule := ⟨fun a b => a.values == b.values⟩

def insert (r : Rule) (key : KeyPath) (value : Value) : Rule := ⟨r.values.insert key.text value⟩

/-- Sets a property, and gives the value that it had. -/
def exchange (r : Rule) (key : KeyPath) (value : Value) : Option Value × Rule :=
  let (old, values) := r.values.exchange key.text value
  (old, ⟨values⟩)

def get? (r : Rule) (path : String) : Option Value := r.values.find? (KeyPath.ofText path).text

def contains (r : Rule) (path : String) : Bool := (r.get? path).isSome

def merge (r other : Rule) : Rule := ⟨r.values.merge other.values⟩

def entries (r : Rule) : List (String × Value) := r.values.entries

def size (r : Rule) : Nat := r.values.size

def isEmpty (r : Rule) : Bool := r.values.isEmpty

def document (r : Rule) : Document := .object (r.entries.map fun e => (e.1, e.2.document))

end Rule

end ViewStyle
