/-
From tokens to an expression. From loose to tight the operators are: or; and; not; the comparisons,
which do not chain; sums; products; the minus sign. A number with a sign right behind an operand is
added to it. An expression has a bounded number of operators, and brackets and operators in front
of an operand nest to a bounded depth.
-/

import ViewStyle.Condition.Error
import ViewStyle.Condition.Expr

set_option autoImplicit false

namespace ViewStyle

open Text (Span)

namespace Expr

/-- The tokens that are left, and how many operators may still follow. -/
structure Reading where
  rest : List Token
  spare : Nat

abbrev Outcome : Type := Except ConditionError (Expr × Reading)

/-- Parsers for the operands of one nesting level: an expression in brackets, the operand of a
`not` and the operand of a minus sign. -/
structure Level where
  disjunction : Reading → Outcome
  inversion : Reading → Outcome
  signed : Reading → Outcome

abbrev Joint : Type := List Token → Option ((Expr → Expr → Expr) × List Token)

def atWord (word : String) : List Token → Bool
  | ⟨.ident found, _, _⟩ :: _ => Token.spells word found
  | _ => false

def wordJoint (word : String) (combine : Expr → Expr → Expr) : Joint := fun tokens =>
  if atWord word tokens then some (combine, tokens.tail) else none

/-- The sign at the start of a number's source text. -/
def isSigned (source : String) : Bool := "+".isPrefixOf source || "-".isPrefixOf source

def sumJoint : Joint
  | ⟨.operator .plus, _, _⟩ :: rest => some (.arith .add, rest)
  | ⟨.operator .minus, _, _⟩ :: rest => some (.arith .sub, rest)
  | ⟨.number value unit source, span, spaced⟩ :: rest =>
      if isSigned source then some (.arith .add, ⟨.number value unit source, span, spaced⟩ :: rest)
      else none
  | _ => none

def productJoint : Joint
  | ⟨.operator .star, _, _⟩ :: rest => some (.arith .mul, rest)
  | ⟨.operator .slash, _, _⟩ :: rest => some (.arith .div, rest)
  | _ => none

def comparison? : List Token → Option (Comparison × List Token)
  | ⟨.operator op, _, _⟩ :: rest => (Comparison.ofOperator? op).map (·, rest)
  | _ => none

def takePath (path : String) : List Token → String × List Token
  | ⟨.punct .dot, _, false⟩ :: ⟨.ident segment, _, false⟩ :: rest =>
      takePath (path ++ "." ++ segment) rest
  | rest => (path, rest)

section

variable (last : Option Span)

def Reading.fail {α : Type} (s : Reading) (fault : ConditionFault) : Except ConditionError α :=
  .error ⟨fault, (s.rest.head?.map (·.span)).or last⟩

def Reading.spend (s : Reading) (rest : List Token) : Except ConditionError Reading :=
  match s.spare with
  | 0 => s.fail last .tooManyOperators
  | spare + 1 => .ok ⟨rest, spare⟩

/-- The operands of one precedence, combined from the left; there are at most `limit` more. -/
def chain (joint : Joint) (operand : Reading → Outcome) : Nat → Expr → Reading → Outcome
  | 0, left, s =>
      match joint s.rest with
      | none => .ok (left, s)
      | some _ => s.fail last .tooManyOperators
  | limit + 1, left, s =>
      match joint s.rest with
      | none => .ok (left, s)
      | some (combine, rest) => do
          let (right, s) ← operand (← s.spend last rest)
          chain joint operand limit (combine left right) s

def chained (joint : Joint) (operand : Reading → Outcome) (s : Reading) : Outcome := do
  let (left, s) ← operand s
  chain last joint operand s.spare left s

/-- The words of the grammar do not start an operand. -/
def isKeyword (found : String) : Bool :=
  Token.spells "and" found || Token.spells "or" found || Token.spells "not" found

def primary (inner : Option Level) (s : Reading) : Outcome :=
  match s.rest with
  | [] => s.fail last .missingOperand
  | token :: rest =>
      match token.kind with
      | .number value unit _ =>
          match unit with
          | none => .ok (.number value, ⟨rest, s.spare⟩)
          | some "px" => .ok (.number value, ⟨rest, s.spare⟩)
          | some "pt" => .ok (.number value, ⟨rest, s.spare⟩)
          | some unit => s.fail last (.unsupportedUnit unit)
      | .string value => .ok (.text value, ⟨rest, s.spare⟩)
      | .ident found =>
          if isKeyword found then s.fail last (.unexpectedKeyword found)
          else if Token.spells "true" found then .ok (.bool true, ⟨rest, s.spare⟩)
          else if Token.spells "false" found then .ok (.bool false, ⟨rest, s.spare⟩)
          else
            let (path, rest) := takePath found rest
            .ok (.name path, ⟨rest, s.spare⟩)
      | .punct (.opening .round) =>
          match inner with
          | none => s.fail last .tooDeep
          | some level => do
              let (operand, s) ← level.disjunction ⟨rest, s.spare⟩
              match s.rest with
              | ⟨.punct (.closing .round), _, _⟩ :: rest => .ok (operand, ⟨rest, s.spare⟩)
              | _ => s.fail last .missingBracket
      | kind => s.fail last (.unexpected kind)

def inFront (combine : Expr → Expr) (operand : Level → Reading → Outcome) (inner : Option Level)
    (s : Reading) : Outcome := do
  let next ← s.spend last s.rest.tail
  match inner with
  | none => s.fail last .tooDeep
  | some level =>
      let (e, s) ← operand level next
      return (combine e, s)

def signed (inner : Option Level) (s : Reading) : Outcome :=
  match s.rest with
  | ⟨.operator .minus, _, _⟩ :: _ => inFront last .negate Level.signed inner s
  | _ => primary last inner s

def product (inner : Option Level) : Reading → Outcome :=
  chained last productJoint (signed last inner)

def sum (inner : Option Level) : Reading → Outcome := chained last sumJoint (product last inner)

def relation (inner : Option Level) (s : Reading) : Outcome := do
  let (left, s) ← sum last inner s
  match comparison? s.rest with
  | none => .ok (left, s)
  | some (op, rest) => do
      let (right, s) ← sum last inner (← s.spend last rest)
      match comparison? s.rest with
      | none => .ok (.compare op left right, s)
      | some _ => s.fail last .chainedComparison

def inversion (inner : Option Level) (s : Reading) : Outcome :=
  if atWord "not" s.rest then inFront last .not Level.inversion inner s
  else relation last inner s

def conjunction (inner : Option Level) : Reading → Outcome :=
  chained last (wordJoint "and" .and) (inversion last inner)

def disjunction (inner : Option Level) : Reading → Outcome :=
  chained last (wordJoint "or" .or) (conjunction last inner)

def level : Nat → Level
  | 0 => ⟨disjunction last none, inversion last none, signed last none⟩
  | room + 1 =>
      let inner := some (level room)
      ⟨disjunction last inner, inversion last inner, signed last inner⟩

end

/-- The expression that all of some tokens form. -/
def ofTokens (tokens : List Token) : Except ConditionError Expr :=
  match tokens.getLast? with
  | none => .error ⟨.empty, none⟩
  | some final => do
      let last := some final.span
      let (e, s) ← (level last nestingLimit).disjunction ⟨tokens, operatorLimit⟩
      match s.rest with
      | [] => .ok e
      | token :: _ => s.fail last (.unexpected token.kind)

end Expr

end ViewStyle
