/-
The cascade: of all declarations whose selectors fit a context, for each property the one with the
highest rank counts, and of several with the same rank the last one.
-/

import ViewStyle.Stylesheet.Basic

set_option autoImplicit false

namespace ViewStyle

/-- All properties of a view, and those that were declared as important. -/
structure Style where
  all : Rule
  important : Rule
  deriving BEq

namespace Style

def empty : Style := ⟨∅, ∅⟩

instance : EmptyCollection Style := ⟨empty⟩

def get? (s : Style) (path : String) : Option Value := s.all.get? path

def isEmpty (s : Style) : Bool := s.all.isEmpty

def document (s : Style) : Document :=
  .object [("all", s.all.document), ("important", s.important.document)]

end Style

namespace Cascade

/-- A declaration that fits, with its rank. -/
structure Candidate where
  specificity : Specificity
  key : String
  declared : Declared

def Candidate.le (a b : Candidate) : Bool :=
  if a.specificity = b.specificity then a.declared.order ≤ b.declared.order
  else a.specificity.le b.specificity

def candidates (t : Rules) (c : Context) : List Candidate :=
  (t.entries.filter (·.selector.applies c)).flatMap fun e =>
    e.declared.entries.map fun (key, declared) => ⟨e.selector.specificity, key, declared⟩

def apply (style : Style) (d : Candidate) : Style where
  all := ⟨style.all.values.insert d.key d.declared.value⟩
  important :=
    if d.declared.value.important then ⟨style.important.values.insert d.key d.declared.value⟩
    else style.important

end Cascade

/-- The style of a view in a context. -/
def Stylesheet.compute (s : Stylesheet) (c : Context) : Style :=
  ((Cascade.candidates s.rules c).mergeSort Cascade.Candidate.le).foldl Cascade.apply ∅

end ViewStyle
