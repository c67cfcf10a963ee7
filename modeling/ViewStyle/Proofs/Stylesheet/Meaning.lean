/-
Stylesheets apart from how they are written, and what they stand for. By recursion over a stylesheet
we list the selectors of every block where it starts, and all declarations; the table has every
selector where it comes up first, with the declarations that concern it under their numbers.
-/

import ViewStyle.Proofs.Stylesheet.Expansion
import ViewStyle.Proofs.Stylesheet.Replay

set_option autoImplicit false

namespace ViewStyle

namespace Sheet

open Outline (Definitions expand)

/-- What a value is written with, once references are replaced or before. -/
structure Phrase where
  tokens : List Token
  nonempty : tokens ≠ []
  grouped : Grouped true tokens

def Phrase.single (token : Token) (opens : token.kind.opens = false)
    (closes : token.kind.closes = false) (plain : token.kind.isPlain = true) : Phrase :=
  ⟨[token], List.cons_ne_nil _ _, .token opens closes (fun _ => plain) .nil⟩

def Marked (tokens : List Token) : Prop :=
  ∃ value bang word name, tokens = value ++ [bang, word] ∧ bang.kind = .punct .bang ∧
    word.kind = .ident name ∧ Token.spells "important" name = true

theorem not_marked_singleton (token : Token) : ¬Marked [token] := by
  rintro ⟨value, bang, word, name, equal, -⟩
  have lengths := congrArg List.length equal
  simp at lengths

/-- A declaration for the selectors of the block around it. -/
structure Property where
  names : List String
  names_ne : names ≠ []
  value : Phrase
  unmarked : ¬Marked value.tokens
  important : Bool

def Property.path (p : Property) : String := ".".intercalate p.names

abbrev Body : Type := Outline.Body Property

abbrev Block : Type := Outline.Block Property Phrase

def valueOf (registry : Registry) (tokens : List Token) (important : Bool) (serial : Nat) :
    Option (Value × Nat) :=
  let raw := Token.render tokens
  match registry.claimant? raw with
  | none => some (⟨.literal (Literal.ofTokens tokens), raw, important⟩, serial)
  | some plugin =>
      (plugin.read raw serial).toOption.map fun compute =>
        (⟨.plugin ⟨plugin.name, compute⟩, raw, important⟩, serial + 1)

/-- A block starts for some selectors, or a property is set. -/
inductive Event
  | opened (selectors : List Selector)
  | declared (d : Declaration)

/-- What a stylesheet stands for up to some place. -/
structure Meaning where
  events : List Event
  globals : Rule
  definitions : Definitions
  serial : Nat

namespace Meaning

def start (serial : Nat) : Meaning := ⟨[], ∅, [], serial⟩

def opened (m : Meaning) (selectors : List Selector) : Meaning :=
  { m with events := m.events ++ [.opened selectors] }

def declared (m : Meaning) (d : Declaration) (serial : Nat) : Meaning :=
  { m with events := m.events ++ [.declared d], serial }

def defined (m : Meaning) (name : String) (tokens : List Token) (value : Value) (serial : Nat) :
    Meaning :=
  { m with
    globals := m.globals.insert (.ofText name) value
    definitions := (name, tokens) :: m.definitions
    serial }

def declare (registry : Registry) (m : Meaning) (selectors : List Selector) (p : Property) :
    Option Meaning :=
  (expand m.definitions p.value.tokens).bind fun tokens =>
    (valueOf registry tokens p.important m.serial).map fun (value, serial) =>
      m.declared ⟨selectors, p.path, value⟩ serial

def define (registry : Registry) (m : Meaning) (definition : String × Phrase) : Option Meaning :=
  (expand m.definitions definition.2.tokens).bind fun tokens =>
    (valueOf registry tokens false m.serial).map fun (value, serial) =>
      m.defined definition.1 tokens value serial

end Meaning

def semantics (registry : Registry) : Outline.Semantics Meaning Property Phrase where
  definitions := Meaning.definitions
  opened := Meaning.opened
  declare := Meaning.declare registry
  define := Meaning.define registry

/-- What a stylesheet stands for. There is something unless a variable has no definition before its
use, a condition is none, trait tags conflict, or a plugin rejects a value. -/
def meaning (registry : Registry) (serial : Nat) (blocks : List Block) : Option Meaning :=
  blocks.foldlM (Outline.Block.effect (semantics registry)) (.start serial)

def firsts : List Selector → List Selector
  | [] => []
  | s :: rest => s :: (firsts rest).filter fun t => !s.same t

def Event.selectors : Event → List Selector
  | .opened selectors => selectors
  | .declared _ => []

def Event.declaration? : Event → Option Declaration
  | .opened _ => none
  | .declared d => some d

def settings (declarations : List Declaration) (s : Selector) : OrderedMap Declared :=
  (declarations.zipIdx 1).foldl
    (fun settings (d, order) =>
      if d.concerns s then settings.insert d.key ⟨d.value, order⟩ else settings) ∅

def table (opened : List Selector) (declarations : List Declaration) : Rules where
  entries := (firsts opened).map fun s => ⟨s, settings declarations s⟩
  count := declarations.length

def Meaning.selectors (m : Meaning) : List Selector := m.events.flatMap Event.selectors

def Meaning.declarations (m : Meaning) : List Declaration :=
  m.events.filterMap Event.declaration?

/-- The stylesheet that was described. -/
def Meaning.stylesheet (m : Meaning) : Stylesheet := ⟨table m.selectors m.declarations, m.globals⟩

end Sheet

end ViewStyle
