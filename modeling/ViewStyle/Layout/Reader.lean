/-
Reading constraints. An equation is written as an anchor, a relation and a right side, with an
optional priority behind a comma; white space counts nowhere in it. The right side is a number, or
an anchor with an optional factor and an optional summand. A visual format is a quoted text.
-/

import ViewStyle.Decimal.Notation
import ViewStyle.Decimal.Numeral
import ViewStyle.Layout.Constraint
import ViewStyle.Text.Blank
import ViewStyle.Text.Split

set_option autoImplicit false

namespace ViewStyle.Layout

inductive Fault
  | notConstraint (raw : String)
  | unquotedFormat
  | invalidPriority (text : String)
  | priorityOutside (priority : Float32)
  | noRelation (body : String)
  | manyRelations (body : String)
  | invalidAnchor (text : String)
  | unknownAttribute (name : String)
  | constantOnLeft
  | invalidRightSide (text : String)
  | invalidNumber (text : String)

def Fault.message : Fault → String
  | .notConstraint raw => s!"'{raw}' is not a constraint"
  | .unquotedFormat => "visual format must be a quoted string"
  | .invalidPriority text => s!"invalid priority '{text}'"
  | .priorityOutside priority =>
      "priority " ++ Decimal.positional32 priority ++ " is outside 1-1000"
  | .noRelation body => s!"no relation in '{body}'"
  | .manyRelations body => s!"more than one relation in '{body}'"
  | .invalidAnchor text => s!"expected 'item.attribute', found '{text}'"
  | .unknownAttribute name => s!"unknown layout attribute '{name}'"
  | .constantOnLeft => "the left side cannot be '__constant'"
  | .invalidRightSide text => s!"invalid right side '{text}'"
  | .invalidNumber text => s!"invalid number '{text}'"

def relations : List (List Char × Relation) :=
  [(['=', '='], .equal), (['>', '='], .greaterEqual), (['<', '='], .lessEqual), (['='], .equal),
    (['>'], .greaterEqual), (['<'], .lessEqual)]

def splitRelation? (body : List Char) : Option (List Char × Relation × List Char) :=
  relations.findSome? fun (mark, relation) =>
    (Text.splitFirst? mark body).map fun (left, right) => (left, relation, right)

def isItem (cs : List Char) : Bool :=
  match cs with
  | '_' :: c :: rest => (c :: rest).all Text.isWord
  | _ => false

def anchorParts? (cs : List Char) : Option (List Char × List Char) :=
  match Text.splitFirst? ['.'] cs with
  | some (item, attr) =>
      if isItem item && !attr.isEmpty && attr.all Char.isAlpha then some (item, attr) else none
  | none => none

def readAnchor (cs : List Char) : Except Fault (Option Anchor) :=
  match anchorParts? cs with
  | none => .error (.invalidAnchor (String.ofList cs))
  | some (item, name) =>
      if String.ofList item = "__constant" then .ok none
      else
        match Attribute.ofName? (String.ofList name) with
        | none => .error (.unknownAttribute (String.ofList name))
        | some attr =>
            if String.ofList item = selfKey then .ok (some ⟨.itself, attr⟩)
            else .ok (some ⟨.subview (String.ofList (item.drop 1)), attr⟩)

def takeNumeral? (cs : List Char) : Option (List Char × List Char) :=
  let whole := cs.takeWhile Text.isDecimalDigit
  let rest := cs.dropWhile Text.isDecimalDigit
  match rest with
  | '.' :: behind =>
      let fraction := behind.takeWhile Text.isDecimalDigit
      if fraction.isEmpty then (if whole.isEmpty then none else some (whole, rest))
      else some (whole ++ '.' :: fraction, behind.dropWhile Text.isDecimalDigit)
  | _ => if whole.isEmpty then none else some (whole, rest)

/-- The parts of a right side that is no number: the anchor, the factor, and the summand with its
sign. -/
structure RightSide where
  anchor : List Char
  factor : Option (List Char)
  summand : Option (Bool × List Char)

def takeFactor? : List Char → Option (Option (List Char) × List Char)
  | '*' :: cs => (takeNumeral? cs).map fun (numeral, rest) => (some numeral, rest)
  | cs => some (none, cs)

def endSummand? : List Char → Option (Option (Bool × List Char))
  | [] => some none
  | c :: cs =>
      if c = '+' ∨ c = '-' then
        match takeNumeral? cs with
        | some (numeral, []) => some (some (c == '-', numeral))
        | _ => none
      else none

def splitRightSide? (cs : List Char) : Option RightSide := do
  let (item, behind) ← Text.splitFirst? ['.'] cs
  let attr := behind.takeWhile Char.isAlpha
  if !isItem item || attr.isEmpty then none
  else
    let (factor, rest) ← takeFactor? (behind.dropWhile Char.isAlpha)
    let summand ← endSummand? rest
    some ⟨item ++ '.' :: attr, factor, summand⟩

def readNumber (cs : List Char) : Except Fault Float :=
  match Decimal.Numeral.read? cs with
  | some numeral => .ok numeral.toFloat
  | none => .error (.invalidNumber (String.ofList cs))

/-- The number that a right side is, if it is one and finite. -/
def finiteNumber? (cs : List Char) : Option Float :=
  match (Decimal.Numeral.read? cs).map Decimal.Numeral.toFloat with
  | some x => if x.isFinite then some x else none
  | none => none

def readPriority (cs : List Char) : Except Fault Float32 :=
  match Decimal.Numeral.read? cs with
  | none => .error (.invalidPriority (String.ofList cs))
  | some numeral =>
      let priority := numeral.toFloat32
      if 1 ≤ priority && priority ≤ 1000 then .ok priority else .error (.priorityOutside priority)

def defaultPriority : Float32 := 250

def readRightSide (cs : List Char) : Except Fault (Option Anchor × Float × Float) :=
  match finiteNumber? cs with
  | some constant => .ok (none, 1, constant)
  | none =>
      match splitRightSide? cs with
      | none => .error (.invalidRightSide (String.ofList cs))
      | some side => do
          let second ← readAnchor side.anchor
          let multiplier ←
            match side.factor with
            | some numeral => readNumber numeral
            | none => .ok 1
          let constant ←
            match side.summand with
            | some (negative, numeral) => do
                let magnitude ← readNumber numeral
                pure (if negative then -magnitude else magnitude)
            | none => .ok 0
          return (second, multiplier, constant)

/-- Reads an equation. -/
def readEquation (text : List Char) : Except Fault Equation := do
  let squeezed := Text.squeeze text
  let (body, priority) ←
    match Text.splitLast? ',' squeezed with
    | some (body, priority) => do pure (body, ← readPriority priority)
    | none => .ok (squeezed, defaultPriority)
  match splitRelation? body with
  | none => .error (.noRelation (String.ofList body))
  | some (left, relation, right) =>
      if right.any fun c => c == '<' || c == '>' || c == '=' then
        .error (.manyRelations (String.ofList body))
      else
        match ← readAnchor left with
        | none => .error .constantOnLeft
        | some first => do
            let (second, multiplier, constant) ← readRightSide right
            return ⟨first, relation, second, multiplier, constant, priority⟩

def unquote? (quote : Char) (cs : List Char) : Option (List Char) :=
  match cs with
  | c :: rest => if c = quote ∧ rest.getLast? = some quote then some rest.dropLast else none
  | [] => none

def readVisual (text : List Char) : Except Fault Template :=
  let trimmed := Text.trim text
  match (unquote? '"' trimmed).or (unquote? '\'' trimmed) with
  | some format => .ok (.visual (String.ofList format) (viewKeys format))
  | none => .error .unquotedFormat

/-- What stands between the brackets of a call. -/
def argument? (function : String) (raw : List Char) : Option (List Char) :=
  let head := function.toList ++ ['(']
  if head.isPrefixOf raw then
    let rest := raw.drop head.length
    if rest.getLast? = some ')' then some rest.dropLast else none
  else none

/-- Reads a constraint of either kind. -/
def Template.read (raw : String) : Except Fault Template :=
  match argument? "constraint-vfl" raw.toList, argument? "constraint" raw.toList with
  | some text, _ => readVisual text
  | none, some text => (readEquation text).map Template.equation
  | none, none => .error (.notConstraint raw)

def isCall (raw : String) : Bool :=
  "constraint(".isPrefixOf raw || "constraint-vfl(".isPrefixOf raw

end ViewStyle.Layout
