/-
Stylesheets as they are written, whether they can be read or not. A value is any tokens that the
reader takes for one, and so is the inside of a pair of square brackets; a property may be called
anything that starts with a name. Where a draft does nothing to the state of the reader, the reader
fails.
-/

import ViewStyle.Proofs.Stylesheet.Reading

set_option autoImplicit false

namespace ViewStyle

open Text (Span)

namespace Draft

open Builder (State)
open Outline (Enclosed)

/-- What a value is written with; there may be nothing. -/
structure Phrase where
  tokens : List Token
  whole : Unbroken (fun kind => !kind.isPlain) 0 tokens

/-- A declaration: what stands in front of its colon, which starts with a name, and its value, which
ends with the mark if it is important. -/
structure Property where
  name : String
  others : List Token.Kind
  value : Phrase
  named : .punct .colon ∉ others

def Property.key (p : Property) : List Token.Kind := .ident p.name :: p.others

inductive Property.Written (p : Property) : List Token → Prop
  | intro {key : List Token} (span : Span) (spaced : Bool) : key.map (·.kind) = p.key →
      p.Written (key ++ ⟨.punct .colon, span, spaced⟩ :: p.value.tokens)

abbrev Body : Type := Outline.Body Property

abbrev Block : Type := Outline.Block Property Phrase

def spelling : Outline.Spelling Property Phrase where
  property := Property.Written
  value := Phrase.tokens
  admits := Enclosed

instance (r : Outline.Restriction) : Decidable (spelling.admits r) :=
  inferInstanceAs (Decidable (Enclosed r))

/-- The tokens of the blocks of a stylesheet, up to some place. -/
abbrev Written : List Block → List Token → Prop := Outline.Written spelling

/-- The path that some tokens spell behind its first part. A dot that a name ends with is as good as
one that stands alone. -/
def spelled (path : List Char) : List Token.Kind → Option (List Char)
  | [] => if Builder.awaitsName path then none else some path
  | .ident name :: rest =>
      if Builder.awaitsName path then spelled (path ++ name.toList) rest else none
  | .punct .dot :: rest =>
      if Builder.awaitsName path then none else spelled (path ++ ['.']) rest
  | _ :: _ => none

def Property.path? (p : Property) : Option String := (spelled [] p.key).map String.ofList

section

variable (registry : Registry)

def Property.effect (selectors : List Selector) (p : Property) (s : State) : Option State :=
  p.path?.bind fun path =>
    let (written, important) := Builder.takeImportance p.value.tokens
    (s.evaluate registry written important).map fun (_, value, s) =>
      s.declare selectors path value

def define (s : State) (definition : String × Phrase) : Option State :=
  (s.evaluate registry definition.2.tokens false).map fun (tokens, value, s) =>
    s.define definition.1 tokens value

/-- What is read from the parts of a draft. -/
def semantics : Outline.Semantics State Property Phrase where
  definitions := State.definitions
  opened := State.introduceAll
  declare s selectors p := p.effect registry selectors s
  define := define registry

theorem effect_declare (p : Property) (next : Body) (selectors : List Selector) (s : State) :
    Outline.Body.effect (semantics registry) (.declare p next) selectors s =
      (p.effect registry selectors s).bind (next.effect (semantics registry) selectors) :=
  rfl

theorem effect_nest (restriction : Outline.Restriction) (inside next : Body)
    (selectors : List Selector) (s : State) :
    Outline.Body.effect (semantics registry) (.nest restriction inside next) selectors s =
      (restriction.refine s.definitions selectors).bind fun nested =>
        (inside.effect (semantics registry) nested (s.introduceAll nested)).bind
          (next.effect (semantics registry) selectors) :=
  rfl

theorem effect_rules (first : Outline.Head) (others : List Outline.Head) (body : Body) (s : State) :
    Outline.Block.effect (semantics registry) s (.rules first others body) =
      ((first :: others).mapM (Outline.Head.selector s.definitions)).bind fun selectors =>
        body.effect (semantics registry) selectors (s.introduceAll selectors) :=
  rfl

end

end Draft

namespace Builder

section

variable (last : Option Span) {registry : Registry}

private theorem toOption_takeKey {key : List Token} (named : .punct .colon ∉ key.map (·.kind))
    (path : List Char) (span : Span) (spaced : Bool) (rest : List Token) :
    (takeKey last path (key ++ ⟨.punct .colon, span, spaced⟩ :: rest)).toOption =
      (Draft.spelled path (key.map (·.kind))).map fun path => (path, rest) := by
  induction key generalizing path with
  | nil =>
      rw [List.nil_append, takeKey, List.map_nil, Draft.spelled]
      cases awaitsName path <;> rfl
  | cons token key ih =>
      obtain ⟨kind, span', spaced'⟩ := token
      rw [List.map_cons, List.mem_cons, not_or] at named
      rw [List.cons_append, takeKey, List.map_cons]
      have later (path : List Char) := ih named.2 path
      cases kind with
      | ident name =>
          cases awaits : awaitsName path with
          | true => simpa [Draft.spelled, awaits] using later (path ++ name.toList)
          | false => simp [Draft.spelled, awaits, toOption_unexpected]
      | punct mark =>
          cases mark with
          | dot =>
              cases awaits : awaitsName path with
              | true => simp [Draft.spelled, awaits, toOption_unexpected]
              | false => simpa [Draft.spelled, awaits] using later (path ++ ['.'])
          | colon => exact absurd rfl named.1
          | _ => exact toOption_unexpected last _ _
      | _ => exact toOption_unexpected last _ _

theorem toOption_declaration {p : Draft.Property} {tokens : List Token}
    (written : p.Written tokens) (s : State) (selectors : List Selector) {rest : List Token}
    (ends : EndsValue rest) :
    (declaration last registry s selectors (tokens ++ rest)).toOption =
      (p.effect registry selectors s).map fun s => (s, skipSemicolon rest) := by
  obtain @⟨key, span, spaced, key_eq⟩ := written
  have named : .punct .colon ∉ key.map (·.kind) := by
    rw [key_eq, Draft.Property.key, List.mem_cons, not_or]
    exact ⟨by rintro ⟨⟩, p.named⟩
  rw [declaration, Draft.Property.effect, Draft.Property.path?, List.append_assoc,
    List.cons_append, toOption_bind, toOption_takeKey last named, key_eq]
  cases Draft.spelled [] p.key with
  | none => rfl
  | some path =>
      dsimp only [Option.map_some, Option.bind_some]
      rw [takeValue_of_unbroken last p.value.whole ends, ok_bind]
      dsimp only
      refine (toOption_evaluate last s _ _ _ _).trans ?_
      cases s.evaluate registry _ _ <;> rfl

theorem toOption_definition (s : State) (name : String) (value : Draft.Phrase) {sign : Token}
    (assigns : Outline.Assigns sign.kind) {rest : List Token} (ends : EndsValue rest) :
    (definition last registry s name (sign :: (value.tokens ++ rest))).toOption =
      (Draft.define registry s (name, value)).map fun s => (s, skipSemicolon rest) := by
  rw [definition, takeAssignment_of_assigns last assigns, ok_bind,
    takeValue_of_unbroken last value.whole ends, ok_bind]
  refine (toOption_evaluate last s _ _ _ _).trans ?_
  rw [Draft.define]
  cases s.evaluate registry _ _ <;> rfl

end

theorem reads_draft (registry : Registry) :
    Reads registry Draft.spelling (Draft.semantics registry) where
  definitions := rfl
  opened := rfl
  enclosed _ enclosed := enclosed
  named := by
    rintro p _ @⟨key, span, spaced, key_eq⟩
    obtain ⟨⟨kind, span', spaced'⟩, others, rfl, kind_eq, -⟩ := List.map_eq_cons_iff.1 key_eq
    cases kind_eq
    exact ⟨_, _, _, _, rfl⟩
  declaration last _ _ written s selectors _ ends :=
    toOption_declaration last written s selectors ends
  definition last name value _ assigns s _ ends :=
    toOption_definition last s name value assigns ends

end Builder

end ViewStyle
