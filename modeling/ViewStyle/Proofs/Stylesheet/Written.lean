/-
The tokens that write a stylesheet: properties are paths of names, with the mark of an important
declaration behind their values.
-/

import ViewStyle.Proofs.Stylesheet.Meaning

set_option autoImplicit false

namespace ViewStyle

open Text (Span)

namespace Sheet

/-- Names with dots between them. -/
inductive WrittenPath : List String → List Token → Prop
  | last (name : String) (span : Span) (spaced : Bool) :
      WrittenPath [name] [⟨.ident name, span, spaced⟩]
  | dot (name : String) (span span' : Span) (spaced spaced' : Bool) {names : List String}
      {tokens : List Token} : WrittenPath names tokens →
        WrittenPath (name :: names)
          (⟨.ident name, span, spaced⟩ :: ⟨.punct .dot, span', spaced'⟩ :: tokens)

theorem WrittenPath.exists_cons {names : List String} {tokens : List Token}
    (h : WrittenPath names tokens) :
    ∃ name span spaced rest, tokens = ⟨.ident name, span, spaced⟩ :: rest := by
  cases h with
  | last name span spaced => exact ⟨name, span, spaced, _, rfl⟩
  | dot name span _ spaced _ _ => exact ⟨name, span, spaced, _, rfl⟩

inductive WrittenMark : Bool → List Token → Prop
  | absent : WrittenMark false []
  | important (word : String) (span span' : Span) (spaced spaced' : Bool) :
      Token.spells "important" word = true →
        WrittenMark true [⟨.punct .bang, span, spaced⟩, ⟨.ident word, span', spaced'⟩]

inductive Property.Written (p : Property) : List Token → Prop
  | intro {path mark : List Token} (span : Span) (spaced : Bool) : WrittenPath p.names path →
      WrittenMark p.important mark →
        p.Written (path ++ ⟨.punct .colon, span, spaced⟩ :: (p.value.tokens ++ mark))

def spelling : Outline.Spelling Property Phrase where
  property := Property.Written
  value := Phrase.tokens
  admits _ := True

/-- The tokens of a whole stylesheet. -/
abbrev Written : List Block → List Token → Prop := Outline.Written spelling

def ProperName (name : String) : Prop := name ≠ "" ∧ name.toList.getLast? ≠ some '.'

instance (name : String) : Decidable (ProperName name) := inferInstanceAs (Decidable (_ ∧ _))

def Body.Proper : Body → Prop
  | .done => True
  | .declare property next => (∀ name ∈ property.names, ProperName name) ∧ Body.Proper next
  | .nest _ inside next => Body.Proper inside ∧ Body.Proper next

instance Body.decidableProper : (body : Body) → Decidable body.Proper
  | .done => .isTrue trivial
  | .declare property next =>
      have := Body.decidableProper next
      inferInstanceAs (Decidable ((∀ name ∈ property.names, ProperName name) ∧ Body.Proper next))
  | .nest _ inside next =>
      have := Body.decidableProper inside
      have := Body.decidableProper next
      inferInstanceAs (Decidable (Body.Proper inside ∧ Body.Proper next))

def Block.Proper : Block → Prop
  | .globals _ => True
  | .rules _ _ body => Body.Proper body

instance Block.decidableProper : (block : Block) → Decidable block.Proper
  | .globals _ => .isTrue trivial
  | .rules _ _ body => Body.decidableProper body

end Sheet

end ViewStyle
