/-
The outline of a stylesheet: blocks of variables and of rules with their selectors, and blocks for
refined selectors inside them. What properties and values are is left open, how they are written,
and what they do. The places of tokens and the white space between them do not matter, but for the
dot in front of a class. Semicolons may stand wherever a statement may; one has to stand behind a
declaration or a definition unless its block ends there.
-/

import ViewStyle.Stylesheet.Grammar

set_option autoImplicit false

namespace ViewStyle

open Text (Span)

namespace Outline

/-- What narrows a selector: conditions, in their brackets, and a trait tag. -/
structure Restriction where
  conditions : List (List Token)
  qualifier : Option String

structure Head where
  target : Target
  restriction : Restriction

/-- What stands in a block of rules, whatever a property is. -/
inductive Body (π : Type)
  | done
  | declare (property : π) (next : Body π)
  | nest (restriction : Restriction) (inside next : Body π)

inductive Block (π ν : Type)
  | globals (definitions : List (String × ν))
  | rules (first : Head) (others : List Head) (body : Body π)

/-- The tokens of the variables, from the last definition to the first. -/
abbrev Definitions : Type := List (String × List Token)

/-- What a token stands for: itself, or the tokens of a variable, the first one of which takes the
place of the reference. -/
def replacement (definitions : Definitions) (token : Token) : Option (List Token) :=
  match token.kind with
  | .atWord name => (definitions.lookup name).map (Builder.respaced token)
  | _ => some [token]

/-- There is an expansion if all variables are defined. -/
def expand (definitions : Definitions) (tokens : List Token) : Option (List Token) :=
  (tokens.mapM (replacement definitions)).map List.flatten

/-- The condition of a pair of brackets. -/
def condition (definitions : Definitions) (tokens : List Token) : Option Condition :=
  (expand definitions tokens).bind fun tokens => (Condition.ofTokens tokens).toOption

/-- All conditions have to hold. -/
def Restriction.condition (definitions : Definitions) (r : Restriction) :
    Option (Option Condition) :=
  (r.conditions.mapM (Outline.condition definitions)).map fun conditions =>
    conditions.foldl (fun before next => Selector.bothConditions before (some next)) none

def Head.selector (definitions : Definitions) (h : Head) : Option Selector :=
  (h.restriction.condition definitions).map fun condition =>
    ⟨h.target, h.restriction.qualifier, condition⟩

/-- Every selector of the block around it is narrowed. -/
def Restriction.refine (definitions : Definitions) (r : Restriction) (parents : List Selector) :
    Option (List Selector) :=
  (r.condition definitions).bind fun condition =>
    parents.mapM fun parent => (parent.refine condition r.qualifier).toOption

/-- What the parts of a stylesheet do to a state, which knows some variables: a block starts, a
property is declared for the selectors of its block, or a variable is defined. -/
structure Semantics (σ π ν : Type) where
  definitions : σ → Definitions
  opened : σ → List Selector → σ
  declare : σ → List Selector → π → Option σ
  define : σ → String × ν → Option σ

section

variable {σ π ν : Type} (semantics : Semantics σ π ν)

/-- What the body of a block for some selectors does, if anything. -/
def Body.effect : Body π → List Selector → σ → Option σ
  | .done, _, s => some s
  | .declare property next, selectors, s =>
      (semantics.declare s selectors property).bind (next.effect selectors)
  | .nest restriction inside next, selectors, s =>
      (restriction.refine (semantics.definitions s) selectors).bind fun nested =>
        (inside.effect nested (semantics.opened s nested)).bind (next.effect selectors)

def Block.effect (s : σ) : Block π ν → Option σ
  | .globals definitions => definitions.foldlM semantics.define s
  | .rules first others body =>
      ((first :: others).mapM (Head.selector (semantics.definitions s))).bind fun selectors =>
        body.effect semantics selectors (semantics.opened s selectors)

end

/-- How properties and values are written, and which restrictions may be. -/
structure Spelling (π ν : Type) where
  property : π → List Token → Prop
  value : ν → List Token
  admits : Restriction → Prop

inductive WrittenConditions : List (List Token) → List Token → Prop
  | nil : WrittenConditions [] []
  | cons (group : List Token) (span span' : Span) (spaced spaced' : Bool)
      {groups : List (List Token)} {tokens : List Token} : WrittenConditions groups tokens →
        WrittenConditions (group :: groups)
          (⟨.punct (.opening .square), span, spaced⟩ ::
            (group ++ ⟨.punct (.closing .square), span', spaced'⟩ :: tokens))

inductive WrittenQualifier : Option String → List Token → Prop
  | absent : WrittenQualifier none []
  | colon (name : String) (span span' : Span) (spaced spaced' : Bool) :
      WrittenQualifier (some name)
        [⟨.punct .colon, span, spaced⟩, ⟨.ident name, span', spaced'⟩]

inductive Restriction.Written (r : Restriction) : List Token → Prop
  | intro {conditions qualifier : List Token} : WrittenConditions r.conditions conditions →
      WrittenQualifier r.qualifier qualifier → r.Written (conditions ++ qualifier)

inductive WrittenTarget : Target → List Token → Prop
  | class (name : String) (span : Span) (spaced : Bool) :
      WrittenTarget (.className name) [⟨.ident name, span, spaced⟩]
  | dot (name : String) (span span' : Span) (spaced : Bool) :
      WrittenTarget (.className name) [⟨.punct .dot, span, spaced⟩, ⟨.ident name, span', false⟩]
  | hash (name : String) (span : Span) (spaced : Bool) :
      WrittenTarget (.traitTag name) [⟨.hash name, span, spaced⟩]

inductive Head.Written (h : Head) : List Token → Prop
  | intro {target restriction : List Token} : WrittenTarget h.target target →
      h.restriction.Written restriction → h.Written (target ++ restriction)

/-- Heads with commas between them. -/
inductive WrittenHeads : List Head → List Token → Prop
  | last {head : Head} {tokens : List Token} : head.Written tokens → WrittenHeads [head] tokens
  | comma {head : Head} {heads : List Head} {tokens rest : List Token} (span : Span)
      (spaced : Bool) : head.Written tokens → WrittenHeads heads rest →
        WrittenHeads (head :: heads) (tokens ++ ⟨.punct .comma, span, spaced⟩ :: rest)

theorem WrittenHeads.exists_target {heads : List Head} {tokens : List Token}
    (h : WrittenHeads heads tokens) :
    ∃ target front behind, tokens = front ++ behind ∧ WrittenTarget target front := by
  cases h with
  | last written =>
      obtain ⟨target, restriction⟩ := written
      exact ⟨_, _, _, rfl, target⟩
  | comma span spaced written _ =>
      obtain ⟨target, restriction⟩ := written
      exact ⟨_, _, _, List.append_assoc _ _ _, target⟩

/-- What stands behind a value up to the end of the block. -/
def Separated (tokens : List Token) : Prop :=
  tokens = [] ∨ ∃ span spaced rest, tokens = ⟨.punct .semicolon, span, spaced⟩ :: rest

def Assigns (kind : Token.Kind) : Prop := kind = .operator .assign ∨ kind = .punct .colon

inductive WrittenDefinitions {ν : Type} (written : ν → List Token) :
    List (String × ν) → List Token → Prop
  | nil : WrittenDefinitions written [] []
  | stray {definitions : List (String × ν)} {tokens : List Token} (span : Span) (spaced : Bool) :
      WrittenDefinitions written definitions tokens →
        WrittenDefinitions written definitions (⟨.punct .semicolon, span, spaced⟩ :: tokens)
  | define (name : String) (value : ν) (sign : Token) {definitions : List (String × ν)}
      {rest : List Token} (span : Span) (spaced : Bool) : Assigns sign.kind →
        WrittenDefinitions written definitions rest → Separated rest →
          WrittenDefinitions written ((name, value) :: definitions)
            (⟨.atWord name, span, spaced⟩ :: sign :: (written value ++ rest))

section

variable {π ν : Type} (spelling : Spelling π ν)

inductive Body.Written : Body π → List Token → Prop
  | done : Body.done.Written []
  | stray {body : Body π} {tokens : List Token} (span : Span) (spaced : Bool) :
      body.Written tokens → body.Written (⟨.punct .semicolon, span, spaced⟩ :: tokens)
  | declare {property : π} {next : Body π} {tokens rest : List Token} :
      spelling.property property tokens → next.Written rest → Separated rest →
        (Body.declare property next).Written (tokens ++ rest)
  | nest {restriction : Restriction} {inside next : Body π} {narrowed within rest : List Token}
      (span span' span'' : Span) (spaced spaced' spaced'' : Bool) : spelling.admits restriction →
      restriction.Written narrowed → inside.Written within → next.Written rest →
        (Body.nest restriction inside next).Written
          (⟨.punct .ampersand, span, spaced⟩ ::
            (narrowed ++ ⟨.punct (.opening .brace), span', spaced'⟩ ::
              (within ++ ⟨.punct (.closing .brace), span'', spaced''⟩ :: rest)))

inductive Block.Written : Block π ν → List Token → Prop
  | globals {word : String} {definitions : List (String × ν)} {inside : List Token}
      (span span' span'' : Span) (spaced spaced' spaced'' : Bool) :
      Token.spells "global" word = true → WrittenDefinitions spelling.value definitions inside →
        (Block.globals definitions).Written
          (⟨.atWord word, span, spaced⟩ :: ⟨.punct (.opening .brace), span', spaced'⟩ ::
            (inside ++ [⟨.punct (.closing .brace), span'', spaced''⟩]))
  | rules {first : Head} {others : List Head} {body : Body π} {heads inside : List Token}
      (span span' : Span) (spaced spaced' : Bool) :
      (∀ h ∈ first :: others, spelling.admits h.restriction) →
      WrittenHeads (first :: others) heads → body.Written spelling inside →
        (Block.rules first others body).Written
          (heads ++ ⟨.punct (.opening .brace), span, spaced⟩ ::
            (inside ++ [⟨.punct (.closing .brace), span', spaced'⟩]))

/-- The tokens of the blocks of a stylesheet, up to some place. -/
inductive Written : List (Block π ν) → List Token → Prop
  | nil : Written [] []
  | stray {blocks : List (Block π ν)} {tokens : List Token} (span : Span) (spaced : Bool) :
      Written blocks tokens → Written blocks (⟨.punct .semicolon, span, spaced⟩ :: tokens)
  | block {block : Block π ν} {blocks : List (Block π ν)} {tokens rest : List Token} :
      block.Written spelling tokens → Written blocks rest →
        Written (block :: blocks) (tokens ++ rest)

variable {spelling} in
theorem Written.append {blocks blocks' : List (Block π ν)} {tokens tokens' : List Token}
    (h : Written spelling blocks tokens) (h' : Written spelling blocks' tokens') :
    Written spelling (blocks ++ blocks') (tokens ++ tokens') := by
  induction h with
  | nil => exact h'
  | stray span spaced _ ih => exact .stray span spaced ih
  | block written _ ih =>
      rw [List.append_assoc]
      exact .block written ih

end

end Outline

end ViewStyle
