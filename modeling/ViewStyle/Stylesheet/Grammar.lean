/-
From tokens to a stylesheet, one statement after the other. Statements stand at the top level, in a
block of variables, or in the block of some selectors, where blocks for refined selectors may stand
too. A variable means the tokens of its last definition before the place where it is used.
-/

import ViewStyle.Except
import ViewStyle.Stylesheet.Basic
import ViewStyle.Stylesheet.Error

set_option autoImplicit false

namespace ViewStyle

open Text (Span)

namespace Builder

/-- What was read so far: the stylesheet, the tokens of the variables from the last definition to
the first, and the number of values that plugins have read. -/
structure State where
  sheet : Stylesheet
  definitions : List (String × List Token)
  serial : Nat

/-- The block that a statement stands in. -/
inductive Scope
  | globals
  | rules (selectors : List Selector)

section

variable (last : Option Span)

/-- The next token is not what the grammar asks for. The place of an early end is that of the last
token. -/
def unexpected {α : Type} (expected : Expectation) : List Token → Except ReadError α
  | [] => .error ⟨.unexpected expected .endOfInput, last⟩
  | token :: _ => .error ⟨.unexpected expected (.token token.kind), some token.span⟩

def takeBrace (expected : Expectation) : List Token → Except ReadError (List Token)
  | ⟨.punct (.opening .brace), _, _⟩ :: rest => .ok rest
  | tokens => unexpected last expected tokens

def skipSemicolon : List Token → List Token
  | ⟨.punct .semicolon, _, _⟩ :: rest => rest
  | tokens => tokens

/-- Takes the tokens before the square bracket that closes a group, and that bracket. -/
def takeGroup (depth : Nat) : List Token → Except ReadError (List Token × List Token)
  | [] => unexpected last .closingSquare []
  | token :: rest =>
      if depth = 0 ∧ token.kind == .punct (.closing .square) then .ok ([], rest)
      else do
        let (group, rest) ← takeGroup (Token.depthAfter token.kind depth) rest
        .ok (token :: group, rest)

/-- Takes the tokens of a value, which a semicolon or a closing brace outside its groups ends. -/
def takeValue (depth : Nat) : List Token → Except ReadError (List Token × List Token)
  | [] => unexpected last .valueEnd []
  | token :: rest =>
      let go : Except ReadError (List Token × List Token) := do
        let (value, rest) ← takeValue (Token.depthAfter token.kind depth) rest
        .ok (token :: value, rest)
      match depth, token.kind with
      | 0, .punct .semicolon => .ok ([], token :: rest)
      | 0, .punct (.closing .brace) => .ok ([], token :: rest)
      | 0, .punct (.opening .brace) =>
          .error ⟨.unexpected .semicolon .blockInValue, some token.span⟩
      | 0, .punct .colon => .error ⟨.unexpected .semicolon .colonInValue, some token.span⟩
      | _, _ => go

/-- The tokens that a reference stands for. -/
def respaced (reference : Token) : List Token → List Token
  | [] => []
  | first :: rest => { first with spaced := reference.spaced } :: rest

/-- Puts the tokens of variables in the place of references to them. -/
def State.substitute (s : State) : List Token → Except ReadError (List Token)
  | [] => .ok []
  | token :: rest =>
      match token.kind with
      | .atWord name =>
          match s.definitions.lookup name with
          | none => .error ⟨.undefinedVariable name, some token.span⟩
          | some definition => do .ok (respaced token definition ++ (← s.substitute rest))
      | _ => do .ok (token :: (← s.substitute rest))

/-- The value of some tokens: that of the plugin which claims their text, or else a literal. -/
def State.value (s : State) (registry : Registry) (tokens : List Token) (important : Bool) :
    Except ReadError (Value × State) :=
  let raw := Token.render tokens
  match registry.claimant? raw with
  | none => .ok (⟨.literal (Literal.ofTokens tokens), raw, important⟩, s)
  | some plugin =>
      match plugin.read raw s.serial with
      | .error e => .error ⟨.plugin e, tokens.head?.map (·.span)⟩
      | .ok compute =>
          .ok (⟨.plugin ⟨plugin.name, compute⟩, raw, important⟩, { s with serial := s.serial + 1 })

theorem length_takeGroup {depth : Nat} {tokens group rest : List Token}
    (h : takeGroup last depth tokens = .ok (group, rest)) : rest.length ≤ tokens.length := by
  induction tokens generalizing depth group with
  | nil => cases h
  | cons token tokens ih =>
      unfold takeGroup at h
      split at h
      · cases h
        exact Nat.le_succ _
      · cases hg : takeGroup last (Token.depthAfter token.kind depth) tokens with
        | error e => simp [hg, bind, Except.bind] at h
        | ok r =>
            simp only [hg, bind, Except.bind, Except.ok.injEq, Prod.mk.injEq] at h
            obtain ⟨-, rfl⟩ := h
            exact Nat.le_succ_of_le (ih hg)

def takeConditions (s : State) (condition : Option Condition) (tokens : List Token) :
    Except ReadError (Option Condition × List Token) :=
  match tokens with
  | ⟨.punct (.opening .square), span, _⟩ :: rest =>
      match h : takeGroup last 0 rest with
      | .error e => .error e
      | .ok (group, rest') =>
          have := length_takeGroup last h
          match s.substitute group with
          | .error e => .error e
          | .ok group =>
              match Condition.ofTokens group with
              | .error e => .error (.ofCondition e (some span))
              | .ok next =>
                  takeConditions s (Selector.bothConditions condition (some next)) rest'
  | _ => .ok (condition, tokens)
termination_by tokens.length

def takeQualifier : List Token → Except ReadError (Option String × List Token)
  | ⟨.punct .colon, _, _⟩ :: rest =>
      match rest with
      | [] => .error ⟨.malformedSelector (.missingTrait none), last⟩
      | token :: rest =>
          match token.kind with
          | .ident name => .ok (some name, rest)
          | kind => .error ⟨.malformedSelector (.missingTrait (some kind)), some token.span⟩
  | tokens => .ok (none, tokens)

/-- What refines a selector. -/
structure Refinement where
  condition : Option Condition
  qualifier : Option String

def takeRefinement (s : State) (tokens : List Token) :
    Except ReadError (Refinement × List Token) := do
  let (condition, tokens) ← takeConditions last s none tokens
  let (qualifier, tokens) ← takeQualifier last tokens
  .ok (⟨condition, qualifier⟩, tokens)

def takeTarget : List Token → Except ReadError (Target × List Token)
  | [] => unexpected last .selector []
  | ⟨.punct .dot, span, _⟩ :: rest =>
      match rest with
      | ⟨.ident name, _, false⟩ :: rest => .ok (.className name, rest)
      | _ => .error ⟨.malformedSelector .missingClass, some span⟩
  | ⟨.ident name, _, _⟩ :: rest => .ok (.className name, rest)
  | ⟨.hash name, _, _⟩ :: rest => .ok (.traitTag name, rest)
  | tokens => unexpected last .selector tokens

def takeSelector (s : State) (tokens : List Token) : Except ReadError (Selector × List Token) := do
  let (target, tokens) ← takeTarget last tokens
  let (refinement, tokens) ← takeRefinement last s tokens
  .ok (⟨target, refinement.qualifier, refinement.condition⟩, tokens)

private theorem length_takeConditions {s : State} {condition result : Option Condition}
    {tokens rest : List Token} (h : takeConditions last s condition tokens = .ok (result, rest)) :
    rest.length ≤ tokens.length := by
  fun_induction takeConditions last s condition tokens with
  | case1 => cases h
  | case2 => cases h
  | case3 => cases h
  | case4 _ _ _ _ _ _ _ hle _ _ _ _ ih =>
      have := ih h
      simp only [List.length_cons]
      omega
  | case5 =>
      cases h
      exact Nat.le_refl _

private theorem length_takeQualifier {qualifier : Option String} {tokens rest : List Token}
    (h : takeQualifier last tokens = .ok (qualifier, rest)) : rest.length ≤ tokens.length := by
  unfold takeQualifier at h
  split at h
  · split at h
    · cases h
    · split at h
      · cases h
        simp only [List.length_cons]
        omega
      · cases h
  · cases h
    exact Nat.le_refl _

private theorem length_takeRefinement {s : State} {refinement : Refinement}
    {tokens rest : List Token} (h : takeRefinement last s tokens = .ok (refinement, rest)) :
    rest.length ≤ tokens.length := by
  obtain ⟨⟨_, middle⟩, hc, h⟩ := bind_eq_ok h
  obtain ⟨⟨_, _⟩, hq, h⟩ := bind_eq_ok h
  cases h
  exact Nat.le_trans (length_takeQualifier last hq) (length_takeConditions last hc)

private theorem length_takeTarget {target : Target} {tokens rest : List Token}
    (h : takeTarget last tokens = .ok (target, rest)) : rest.length < tokens.length := by
  unfold takeTarget at h
  split at h
  · cases h
  · split at h
    · cases h
      simp only [List.length_cons]
      omega
    · cases h
  · cases h
    exact Nat.lt_succ_self _
  · cases h
    exact Nat.lt_succ_self _
  · unfold unexpected at h
    split at h <;> cases h

theorem length_takeSelector {s : State} {selector : Selector} {tokens rest : List Token}
    (h : takeSelector last s tokens = .ok (selector, rest)) : rest.length < tokens.length := by
  obtain ⟨⟨_, middle⟩, ht, h⟩ := bind_eq_ok h
  obtain ⟨⟨_, _⟩, hr, h⟩ := bind_eq_ok h
  cases h
  exact Nat.lt_of_le_of_lt (length_takeRefinement last hr) (length_takeTarget last ht)

/-- Takes selectors with commas between them. -/
def takeSelectors (s : State) (tokens : List Token) :
    Except ReadError (List Selector × List Token) :=
  match h : takeSelector last s tokens with
  | .error e => .error e
  | .ok (selector, ⟨.punct .comma, span, spaced⟩ :: rest) =>
      have := length_takeSelector last h
      match takeSelectors s rest with
      | .error e => .error e
      | .ok (others, rest) => .ok (selector :: others, rest)
  | .ok (selector, rest) => .ok ([selector], rest)
termination_by tokens.length
decreasing_by
  simp at this
  omega

/-- The path of a property goes on with a name. -/
def awaitsName (key : List Char) : Bool := key.isEmpty || key.getLast? == some '.'

/-- Takes the path of a property and the colon behind it. -/
def takeKey (key : List Char) : List Token → Except ReadError (List Char × List Token)
  | [] => unexpected last .colon []
  | token :: rest =>
      match token.kind, awaitsName key with
      | .ident name, true => takeKey (key ++ name.toList) rest
      | .punct .dot, false => takeKey (key ++ ['.']) rest
      | .punct .colon, false => .ok (key, rest)
      | _, _ => unexpected last (if key.isEmpty then .property else .colon) (token :: rest)

/-- Takes the mark of an important declaration off its value. -/
def takeImportance (tokens : List Token) : List Token × Bool :=
  match tokens.reverse with
  | ⟨.ident word, _, _⟩ :: ⟨.punct .bang, _, _⟩ :: value =>
      if Token.spells "important" word then (value.reverse, true) else (tokens, false)
  | _ => (tokens, false)

/-- Reads the declaration of a property for some selectors. -/
def declaration (registry : Registry) (s : State) (selectors : List Selector)
    (tokens : List Token) : Except ReadError (State × List Token) := do
  let (key, tokens) ← takeKey last [] tokens
  let (written, tokens) ← takeValue last 0 tokens
  let (written, important) := takeImportance written
  if written.isEmpty then unexpected last .value tokens
  else
    let value ← s.substitute written
    let (value, s) ← s.value registry value important
    let (order, rules) := s.sheet.rules.nextOrder
    let path := KeyPath.ofText (String.ofList key)
    let rules :=
      selectors.foldl (fun rules selector => rules.declare selector path value order) rules
    .ok ({ s with sheet := { s.sheet with rules } }, skipSemicolon tokens)

def takeAssignment : List Token → Except ReadError (List Token)
  | ⟨.operator .assign, _, _⟩ :: rest => .ok rest
  | ⟨.punct .colon, _, _⟩ :: rest => .ok rest
  | tokens => unexpected last .assignment tokens

/-- Reads the definition of a variable, behind its name. -/
def definition (registry : Registry) (s : State) (name : String) (tokens : List Token) :
    Except ReadError (State × List Token) := do
  let tokens ← takeAssignment last tokens
  let (written, tokens) ← takeValue last 0 tokens
  if written.isEmpty then unexpected last .value tokens
  else
    let replacement ← s.substitute written
    let (value, s) ← s.value registry replacement false
    let globals := s.sheet.globals.insert (KeyPath.ofText name) value
    .ok ({ s with
      sheet := { s.sheet with globals }
      definitions := (name, replacement) :: s.definitions }, skipSemicolon tokens)

/-- Gives selectors their places in the table. -/
def State.introduceAll (s : State) (selectors : List Selector) : State :=
  { s with sheet := { s.sheet with rules := selectors.foldl Rules.introduce s.sheet.rules } }

/-- The selectors of a nested block. -/
def refineAll (selectors : List Selector) (r : Refinement) (span : Span) :
    Except ReadError (List Selector) :=
  selectors.mapM fun selector =>
    match selector.refine r.condition r.qualifier with
    | .ok refined => .ok refined
    | .error conflict => .error ⟨.malformedSelector (.conflict conflict), some span⟩

/-- What follows a statement: the state, the open blocks from the inside out, and the rest of the
tokens. -/
structure Progress where
  state : State
  scopes : List Scope
  rest : List Token

/-- Reads a statement outside all blocks, up to the start of a block. -/
def topLevel (s : State) (token : Token) (rest : List Token) : Except ReadError Progress :=
  match token.kind with
  | .punct .semicolon => .ok ⟨s, [], rest⟩
  | .atWord name =>
      if Token.spells "global" name then do
        .ok ⟨s, [.globals], ← takeBrace last .variableBlock rest⟩
      else .error ⟨.unknownDirective name, some token.span⟩
  | _ => do
      let (selectors, rest) ← takeSelectors last s (token :: rest)
      let rest ← takeBrace last .selectorEnd rest
      .ok ⟨s.introduceAll selectors, [.rules selectors], rest⟩

/-- Reads a statement of a block of variables, or its end. -/
def inGlobals (registry : Registry) (s : State) (outer : List Scope) (token : Token)
    (rest : List Token) : Except ReadError Progress :=
  match token.kind with
  | .punct .semicolon => .ok ⟨s, .globals :: outer, rest⟩
  | .punct (.closing .brace) => .ok ⟨s, outer, rest⟩
  | .atWord name => do
      let (s, rest) ← definition last registry s name rest
      .ok ⟨s, .globals :: outer, rest⟩
  | kind => .error ⟨.unexpected .definition (.token kind), some token.span⟩

/-- Reads a statement of a block of rules, up to the start of a nested block, or the end of the
block. -/
def inRules (registry : Registry) (s : State) (selectors : List Selector) (outer : List Scope)
    (token : Token) (rest : List Token) : Except ReadError Progress :=
  match token.kind with
  | .punct .semicolon => .ok ⟨s, .rules selectors :: outer, rest⟩
  | .punct (.closing .brace) => .ok ⟨s, outer, rest⟩
  | .punct .ampersand => do
      let (refinement, rest) ← takeRefinement last s rest
      let rest ← takeBrace last .nestedBlock rest
      let nested ← refineAll selectors refinement token.span
      .ok ⟨s.introduceAll nested, .rules nested :: .rules selectors :: outer, rest⟩
  | _ => do
      let (s, rest) ← declaration last registry s selectors (token :: rest)
      .ok ⟨s, .rules selectors :: outer, rest⟩

/-- Reads one statement. -/
def statement (registry : Registry) (s : State) (scopes : List Scope) (token : Token)
    (rest : List Token) : Except ReadError Progress :=
  match scopes with
  | [] => topLevel last s token rest
  | .globals :: outer => inGlobals last registry s outer token rest
  | .rules selectors :: outer => inRules last registry s selectors outer token rest

theorem unexpected_ne_ok {α : Type} {expected : Expectation} {tokens : List Token} {a : α} :
    unexpected last expected tokens ≠ .ok a := by
  intro h
  cases tokens <;> cases h

private theorem length_takeBrace {expected : Expectation} {tokens rest : List Token}
    (h : takeBrace last expected tokens = .ok rest) : rest.length < tokens.length := by
  unfold takeBrace at h
  split at h
  · cases h
    exact Nat.lt_succ_self _
  · exact absurd h (unexpected_ne_ok last)

private theorem length_takeAssignment {tokens rest : List Token}
    (h : takeAssignment last tokens = .ok rest) : rest.length < tokens.length := by
  unfold takeAssignment at h
  split at h
  · cases h
    exact Nat.lt_succ_self _
  · cases h
    exact Nat.lt_succ_self _
  · exact absurd h (unexpected_ne_ok last)

private theorem length_skipSemicolon (tokens : List Token) :
    (skipSemicolon tokens).length ≤ tokens.length := by
  unfold skipSemicolon
  split
  · exact Nat.le_succ _
  · exact Nat.le_refl _

private theorem length_takeValue {depth : Nat} {tokens value rest : List Token}
    (h : takeValue last depth tokens = .ok (value, rest)) : rest.length ≤ tokens.length := by
  induction tokens generalizing depth value with
  | nil => cases h
  | cons token tokens ih =>
      unfold takeValue at h
      dsimp only at h
      split at h
      · cases h
        exact Nat.le_refl _
      · cases h
        exact Nat.le_refl _
      · cases h
      · cases h
      · obtain ⟨⟨_, _⟩, hv, h⟩ := bind_eq_ok h
        cases h
        exact Nat.le_succ_of_le (ih hv)

private theorem length_takeKey {key result : List Char} {tokens rest : List Token}
    (h : takeKey last key tokens = .ok (result, rest)) : rest.length < tokens.length := by
  induction tokens generalizing key with
  | nil => cases h
  | cons token tokens ih =>
      unfold takeKey at h
      split at h
      · exact Nat.lt_succ_of_lt (ih h)
      · exact Nat.lt_succ_of_lt (ih h)
      · cases h
        exact Nat.lt_succ_self _
      · exact absurd h (unexpected_ne_ok last)

private theorem length_takeSelectors {s : State} {selectors : List Selector}
    {tokens rest : List Token} (h : takeSelectors last s tokens = .ok (selectors, rest)) :
    rest.length < tokens.length := by
  fun_induction takeSelectors last s tokens generalizing selectors with
  | case1 => cases h
  | case2 => cases h
  | case3 tokens selector span spaced middle hs hlt others _ ho ih =>
      cases h
      have := ih ho
      simp only [List.length_cons] at hlt
      omega
  | case4 tokens selector _ _ hs =>
      cases h
      exact length_takeSelector last hs

private theorem length_declaration {registry : Registry} {s s' : State} {selectors : List Selector}
    {tokens rest : List Token} (h : declaration last registry s selectors tokens = .ok (s', rest)) :
    rest.length < tokens.length := by
  obtain ⟨⟨_, _⟩, hk, h⟩ := bind_eq_ok h
  obtain ⟨⟨_, middle⟩, hv, h⟩ := bind_eq_ok h
  dsimp only at h
  split at h
  · exact absurd h (unexpected_ne_ok last)
  · obtain ⟨_, -, h⟩ := bind_eq_ok h
    obtain ⟨⟨_, _⟩, -, h⟩ := bind_eq_ok h
    cases h
    exact Nat.lt_of_le_of_lt (Nat.le_trans (length_skipSemicolon _) (length_takeValue last hv))
      (length_takeKey last hk)

private theorem length_definition {registry : Registry} {s s' : State} {name : String}
    {tokens rest : List Token} (h : definition last registry s name tokens = .ok (s', rest)) :
    rest.length ≤ tokens.length := by
  obtain ⟨_, ha, h⟩ := bind_eq_ok h
  obtain ⟨⟨_, _⟩, hv, h⟩ := bind_eq_ok h
  dsimp only at h
  split at h
  · exact absurd h (unexpected_ne_ok last)
  · obtain ⟨_, -, h⟩ := bind_eq_ok h
    obtain ⟨⟨_, _⟩, -, h⟩ := bind_eq_ok h
    cases h
    exact Nat.le_trans (length_skipSemicolon _)
      (Nat.le_trans (length_takeValue last hv) (Nat.le_of_lt (length_takeAssignment last ha)))

theorem length_statement {registry : Registry} {s : State} {scopes : List Scope} {token : Token}
    {rest : List Token} {p : Progress}
    (h : statement last registry s scopes token rest = .ok p) :
    p.rest.length ≤ rest.length := by
  unfold statement at h
  split at h
  · unfold topLevel at h
    split at h
    · cases h
      exact Nat.le_refl _
    · split at h
      · obtain ⟨_, hb, h⟩ := bind_eq_ok h
        cases h
        exact Nat.le_of_lt (length_takeBrace last hb)
      · cases h
    · obtain ⟨⟨_, _⟩, hs, h⟩ := bind_eq_ok h
      obtain ⟨_, hb, h⟩ := bind_eq_ok h
      cases h
      exact Nat.le_of_lt_succ
        (Nat.lt_trans (length_takeBrace last hb) (length_takeSelectors last hs))
  · unfold inGlobals at h
    split at h
    · cases h
      exact Nat.le_refl _
    · cases h
      exact Nat.le_refl _
    · obtain ⟨⟨_, _⟩, hd, h⟩ := bind_eq_ok h
      cases h
      exact length_definition last hd
    · cases h
  · unfold inRules at h
    split at h
    · cases h
      exact Nat.le_refl _
    · cases h
      exact Nat.le_refl _
    · obtain ⟨⟨_, _⟩, hr, h⟩ := bind_eq_ok h
      obtain ⟨_, hb, h⟩ := bind_eq_ok h
      obtain ⟨_, -, h⟩ := bind_eq_ok h
      cases h
      exact Nat.le_trans (Nat.le_of_lt (length_takeBrace last hb)) (length_takeRefinement last hr)
    · obtain ⟨⟨_, _⟩, hd, h⟩ := bind_eq_ok h
      cases h
      exact Nat.le_of_lt_succ (length_declaration last hd)

/-- Reads statements to the end of the tokens, where no block may be open. -/
def run (registry : Registry) (s : State) (scopes : List Scope) :
    List Token → Except ReadError State
  | [] =>
      match scopes with
      | [] => .ok s
      | _ :: _ => unexpected last .closingBrace []
  | token :: rest =>
      match h : statement last registry s scopes token rest with
      | .error e => .error e
      | .ok p =>
          have := length_statement last h
          run registry p.state p.scopes p.rest
termination_by tokens => tokens.length

end

/-- Nothing is read yet; plugins have read some values before. -/
def State.start (serial : Nat) : State := ⟨∅, [], serial⟩

/-- Reads a stylesheet. -/
def build (registry : Registry) (serial : Nat) (tokens : List Token) : Except ReadError State :=
  run (tokens.getLast?.map (·.span)) registry (.start serial) [] tokens

end Builder

end ViewStyle
