/-
Layout constraints: a relation between two anchors of views, or a visual format with the views
that it may name.
-/

import ViewStyle.Text.Word

set_option autoImplicit false

namespace ViewStyle.Layout

/-- The edges and measures of a view that constraints relate. -/
inductive Attribute
  | left
  | right
  | top
  | bottom
  | leading
  | trailing
  | width
  | height
  | centerX
  | centerY
  | baseline
  | firstBaseline
  | leftMargin
  | rightMargin
  | topMargin
  | bottomMargin
  | leadingMargin
  | trailingMargin
  | centerXWithinMargins
  | centerYWithinMargins
  | notAnAttribute
  deriving DecidableEq

def Attribute.name : Attribute → String
  | .left => "left"
  | .right => "right"
  | .top => "top"
  | .bottom => "bottom"
  | .leading => "leading"
  | .trailing => "trailing"
  | .width => "width"
  | .height => "height"
  | .centerX => "centerX"
  | .centerY => "centerY"
  | .baseline => "baseline"
  | .firstBaseline => "firstBaseline"
  | .leftMargin => "leftMargin"
  | .rightMargin => "rightMargin"
  | .topMargin => "topMargin"
  | .bottomMargin => "bottomMargin"
  | .leadingMargin => "leadingMargin"
  | .trailingMargin => "trailingMargin"
  | .centerXWithinMargins => "centerXWithinMargins"
  | .centerYWithinMargins => "centerYWithinMargins"
  | .notAnAttribute => "notAnAttribute"

def Attribute.all : List Attribute :=
  [.left, .right, .top, .bottom, .leading, .trailing, .width, .height, .centerX, .centerY,
    .baseline, .firstBaseline, .leftMargin, .rightMargin, .topMargin, .bottomMargin,
    .leadingMargin, .trailingMargin, .centerXWithinMargins, .centerYWithinMargins,
    .notAnAttribute]

def Attribute.ofName? (name : String) : Option Attribute :=
  Attribute.all.find? (·.name == name)

inductive Relation
  | lessEqual
  | equal
  | greaterEqual
  deriving DecidableEq

/-- The view of an anchor: the styled view itself, or a view inside it. -/
inductive Item
  | itself
  | subview (key : String)
  deriving DecidableEq

structure Anchor where
  item : Item
  attr : Attribute
  deriving DecidableEq

/-- The first anchor relates to `multiplier` times the second one plus `constant`; without a second
anchor it relates to the constant alone. -/
structure Equation where
  first : Anchor
  relation : Relation
  second : Option Anchor
  multiplier : Float
  constant : Float
  priority : Float32
  deriving BEq

/-- A constraint of a styled view. -/
inductive Constraint
  | equation (e : Equation)
  | visual (format : String) (views : List String)
  deriving BEq

/-- How a format names the styled view itself. -/
def selfKey : String := "__self"

/-- What is written in a stylesheet: the views of a visual format are those it names. -/
inductive Template
  | equation (e : Equation)
  | visual (format : String) (keys : List String)

def Item.available (has : String → Bool) : Item → Bool
  | .itself => true
  | .subview key => has key

/-- The name of the subview that a key of a visual format stands for. -/
def subviewOfKey (key : String) : String := String.ofList (key.toList.drop 1)

/-- The constraints of a template for a view with some subviews: an equation with a missing view
gives none, and a visual format sees the views that are there. -/
def Template.resolve (has : String → Bool) : Template → List Constraint
  | .equation e =>
      if e.first.item.available has && e.second.all (·.item.available has) then [.equation e]
      else []
  | .visual format keys =>
      [.visual format (selfKey :: keys.filter fun key => has (subviewOfKey key))]

def viewKeys : List Char → List String
  | [] => []
  | '_' :: cs =>
      let key := String.ofList ('_' :: cs.takeWhile Text.isWord)
      have : (cs.dropWhile Text.isWord).length < cs.length + 1 :=
        Nat.lt_succ_of_le (List.dropWhile_suffix _).length_le
      let others := viewKeys (cs.dropWhile Text.isWord)
      if (cs.takeWhile Text.isWord).isEmpty || key == selfKey then others
      else key :: others.filter (· != key)
  | _ :: cs => viewKeys cs
termination_by cs => cs.length

end ViewStyle.Layout
