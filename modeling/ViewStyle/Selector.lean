/-
Selectors: which views a rule is for, under which condition, and which of several rules wins.
-/

import ViewStyle.Condition.Basic

set_option autoImplicit false

namespace ViewStyle

/-- The views that have a class, or those that carry a trait tag. -/
inductive Target
  | className (name : String)
  | traitTag (name : String)
  deriving DecidableEq

/-- The rank of a selector: trait tags outrank classes, a qualifier outranks every condition, and
more terms of a condition outrank fewer. -/
structure Specificity where
  traitTag : Bool
  qualified : Bool
  conditions : Nat
  deriving DecidableEq

def Specificity.le (a b : Specificity) : Bool :=
  if a.traitTag != b.traitTag then b.traitTag
  else if a.qualified != b.qualified then b.qualified
  else a.conditions ≤ b.conditions

/-- A target, a trait tag that the view has to carry as well, and a condition. -/
structure Selector where
  target : Target
  qualifier : Option String
  condition : Option Condition

namespace Selector

/-- What makes two selectors the same. -/
structure Identity where
  target : Target
  qualifier : Option String
  condition : Option String
  deriving DecidableEq

def identity (s : Selector) : Identity :=
  ⟨s.target, s.qualifier, s.condition.map Condition.canonical⟩

/-- The selectors are equal, however their conditions are spelled. -/
def same (s t : Selector) : Bool := s.identity == t.identity

def specificity (s : Selector) : Specificity where
  traitTag :=
    match s.target with
    | .className _ => false
    | .traitTag _ => true
  qualified := s.qualifier.isSome
  conditions := (s.condition.map Condition.termCount).getD 0

def fits (s : Selector) (className : String) (traitTag : Option String) : Bool :=
  (match s.target with
    | .className name => name == className
    | .traitTag name => traitTag == some name) &&
  s.qualifier.all fun name => traitTag == some name

/-- The selector fits a context. -/
def applies (s : Selector) (c : Context) : Bool :=
  s.fits c.className c.traitTag && s.condition.all (·.holds c)

def text (s : Selector) : String :=
  (match s.target with
    | .className name => "." ++ name
    | .traitTag name => "#" ++ name) ++
  ((s.condition.map fun c => "[" ++ c.canonical ++ "]").getD "") ++
  ((s.qualifier.map fun name => ":" ++ name).getD "")

/-- Two conditions together, if there are two. -/
def bothConditions (first second : Option Condition) : Option Condition :=
  match first, second with
  | some c, some d => some (c.and d)
  | some c, none => some c
  | none, d => d

/-- A selector that has one qualifier and cannot take another one. -/
structure Conflict where
  new : String
  old : String
  selector : String
  deriving DecidableEq

def Conflict.message (c : Conflict) : String :=
  s!"trait qualifier ':{c.new}' conflicts with ':{c.old}' of '{c.selector}'"

/-- The selector with a further condition and a qualifier. -/
def refine (s : Selector) (condition : Option Condition) (qualifier : Option String) :
    Except Conflict Selector :=
  let refined := { s with condition := bothConditions s.condition condition }
  match qualifier, s.qualifier with
  | none, _ => .ok refined
  | some new, none => .ok { refined with qualifier := some new }
  | some new, some old => if old = new then .ok refined else .error ⟨new, old, s.text⟩

end Selector

end ViewStyle
