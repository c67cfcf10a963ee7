/-
The place of a token shows in messages only. From tokens that differ in nothing but their places the
same stylesheet is read, or none: every reader agrees with itself on such tokens, whatever the place
of the last token is said to be.
-/

import ViewStyle.Proofs.Sequence
import ViewStyle.Proofs.Stylesheet.Reading

set_option autoImplicit false

namespace ViewStyle

open Text (Span)

/-- The tokens differ in their places only. -/
inductive Token.Alike : Token → Token → Prop
  | intro (kind : Token.Kind) (span span' : Span) (spaced : Bool) :
      Alike ⟨kind, span, spaced⟩ ⟨kind, span', spaced⟩

private theorem Token.alike_iff {token token' : Token} :
    token.Alike token' ↔ token.kind = token'.kind ∧ token.spaced = token'.spaced := by
  constructor
  · rintro ⟨kind, span, span', spaced⟩
    exact ⟨rfl, rfl⟩
  · obtain ⟨kind, span, spaced⟩ := token
    obtain ⟨kind', span', spaced'⟩ := token'
    rintro ⟨rfl, rfl⟩
    exact .intro kind span span' spaced

instance : DecidableRel Token.Alike := fun _ _ => decidable_of_iff _ Token.alike_iff.symm

/-- The tokens are of one kind. -/
inductive Token.SameKind : Token → Token → Prop
  | intro (kind : Token.Kind) (span span' : Span) (spaced spaced' : Bool) :
      SameKind ⟨kind, span, spaced⟩ ⟨kind, span', spaced'⟩

private theorem Token.Alike.sameKind {token token' : Token} (h : token.Alike token') :
    token.SameKind token' := by
  obtain ⟨kind, span, span', spaced⟩ := h
  exact .intro kind span span' spaced spaced

/-- Lists of tokens that differ in the places of the tokens only. -/
abbrev Alike : List Token → List Token → Prop := List.Forall₂ Token.Alike

namespace Alike

private theorem refl (tokens : List Token) : Alike tokens tokens :=
  List.forall₂_same.2 fun token _ => .intro token.kind token.span token.span token.spaced

private theorem symm {tokens tokens' : List Token} (h : Alike tokens tokens') :
    Alike tokens' tokens := by
  refine (h.imp ?_).flip
  rintro _ _ ⟨kind, span, span', spaced⟩
  exact .intro kind span' span spaced

private theorem append {first first' rest rest' : List Token} (h : Alike first first')
    (h' : Alike rest rest') : Alike (first ++ rest) (first' ++ rest') :=
  List.rel_append h h'

private theorem exists_append {first rest tokens : List Token} (h : Alike (first ++ rest) tokens) :
    ∃ first' rest', tokens = first' ++ rest' ∧ Alike first first' ∧ Alike rest rest' :=
  exists_forall₂_append h

private theorem isEmpty_eq {tokens tokens' : List Token} (h : Alike tokens tokens') :
    tokens.isEmpty = tokens'.isEmpty := by
  cases h <;> rfl

private theorem render_eq {tokens tokens' : List Token} (h : Alike tokens tokens') :
    Token.render tokens = Token.render tokens' := by
  have rest_eq {rest rest' : List Token} (others : Alike rest rest') :
      Token.renderRest rest = Token.renderRest rest' := by
    unfold Token.renderRest
    induction others with
    | nil => rfl
    | cons alike _ ih =>
        cases alike
        rw [List.map_cons, List.map_cons, String.join_cons, String.join_cons, ih]
  cases h with
  | nil => rfl
  | cons alike others =>
      cases alike
      rw [Token.render, Token.render, rest_eq others]

end Alike

namespace Literal

private theorem callNumbers?_congr {tokens tokens' : List Token}
    (h : List.Forall₂ Token.SameKind tokens tokens') :
    callNumbers? tokens = callNumbers? tokens' := by
  fun_induction callNumbers? tokens generalizing tokens' with
  | case1 =>
      cases h
      rfl
  | case2 value =>
      obtain _ | ⟨⟨⟩, ⟨⟩⟩ := h
      rfl
  | case3 value _ _ _ _ _ rest ih =>
      obtain _ | ⟨⟨⟩, _ | ⟨⟨⟩, others⟩⟩ := h
      rw [callNumbers?, ih others]
  | case4 tokens not_nil not_one not_comma =>
      unfold callNumbers?
      split
      · cases h
        exact absurd rfl not_nil
      · obtain _ | ⟨⟨⟩, ⟨⟩⟩ := h
        exact absurd rfl (not_one _ _ _ _)
      · obtain _ | ⟨⟨⟩, _ | ⟨⟨⟩, others⟩⟩ := h
        exact absurd rfl (not_comma _ _ _ _ _ _ _)
      · rfl

private theorem colorOfCall?_congr (function : String) {tokens tokens' : List Token}
    (h : List.Forall₂ Token.SameKind tokens tokens') :
    colorOfCall? function tokens = colorOfCall? function tokens' := by
  unfold colorOfCall?
  congr 1
  rcases List.eq_nil_or_concat' tokens with rfl | ⟨arguments, final, rfl⟩
  · cases h
    rfl
  · obtain ⟨arguments', final', rfl, same, last⟩ := exists_forall₂_append h
    obtain _ | ⟨⟨kind, span, span', spaced, spaced'⟩, ⟨⟩⟩ := last
    have color_eq : callColor? arguments = callColor? arguments' := by
      unfold callColor?
      rw [callNumbers?_congr same]
    unfold argumentsOf?
    simp only [List.getLast?_concat, List.dropLast_concat]
    cases kind with
    | punct mark =>
        cases mark with
        | closing bracket => cases bracket <;> first | rfl | exact color_eq
        | _ => rfl
    | _ => rfl

private theorem ofTokens_name {name : String} (h : ¬(name = "true" ∨ name = "false")) (span : Span)
    (spaced : Bool) :
    ofTokens [⟨.ident name, span, spaced⟩] =
      .text (Token.render [⟨.ident name, span, spaced⟩]) := by
  unfold ofTokens
  split <;> first | rfl | simp_all

theorem ofTokens_congr {tokens tokens' : List Token}
    (h : List.Forall₂ Token.SameKind tokens tokens')
    (render_eq : Token.render tokens = Token.render tokens') :
    ofTokens tokens = ofTokens tokens' := by
  cases h with
  | nil => rfl
  | cons same others =>
      obtain ⟨kind, span, span', spaced, spaced'⟩ := same
      cases kind with
      | function name =>
          simp only [ofTokens, render_eq, colorOfCall?_congr name others]
      | ident name =>
          cases others with
          | nil =>
              by_cases word : name = "true" ∨ name = "false"
              · rcases word with rfl | rfl <;> rfl
              · rw [ofTokens_name word, ofTokens_name word, render_eq]
          | cons _ _ => simp only [ofTokens, render_eq]
      | _ => cases others <;> simp only [ofTokens, render_eq]

private theorem ofTokens_alike {tokens tokens' : List Token} (h : Alike tokens tokens') :
    ofTokens tokens = ofTokens tokens' :=
  ofTokens_congr (h.imp fun _ _ alike => alike.sameKind) h.render_eq

end Literal

namespace Expr

private theorem Names.alike {path whole : String} {tokens tokens' : List Token}
    (h : Names path tokens whole) (alike : Alike tokens tokens') : Names path tokens' whole := by
  induction h generalizing tokens' with
  | done path =>
      cases alike
      exact .done path
  | segment segment span span' _ ih =>
      obtain _ | ⟨⟨⟩, _ | ⟨⟨⟩, others⟩⟩ := alike
      exact .segment segment _ _ (ih others)

private theorem Links.alike {layer : Layer} {between between' right right' : List Token}
    {combine : Expr → Expr → Expr} (h : Links layer between right combine)
    (alike : Alike between between') (alike_right : Alike right right') :
    Links layer between' right' combine := by
  cases h with
  | or _ _ _ spells =>
      obtain _ | ⟨⟨⟩, ⟨⟩⟩ := alike
      exact .or _ _ _ spells
  | and _ _ _ spells =>
      obtain _ | ⟨⟨⟩, ⟨⟩⟩ := alike
      exact .and _ _ _ spells
  | term _ _ _ known kind =>
      obtain _ | ⟨⟨⟩, ⟨⟩⟩ := alike
      exact .term _ _ _ known kind
  | sign value unit _ _ _ signed =>
      cases alike
      obtain _ | ⟨⟨⟩, _⟩ := alike_right
      exact .sign value unit _ _ _ signed
  | factor _ _ _ known kind =>
      obtain _ | ⟨⟨⟩, ⟨⟩⟩ := alike
      exact .factor _ _ _ known kind

private theorem Derives.alike {layer : Layer} {tokens tokens' : List Token} {e : Expr}
    {operators nesting : Nat} (h : Derives layer tokens e operators nesting)
    (alike : Alike tokens tokens') : Derives layer tokens' e operators nesting := by
  induction h generalizing tokens' with
  | number value source _ _ unit =>
      obtain _ | ⟨⟨⟩, ⟨⟩⟩ := alike
      exact .number value source _ _ unit
  | text value =>
      obtain _ | ⟨⟨⟩, ⟨⟩⟩ := alike
      exact .text value _ _
  | bool value _ _ spells =>
      obtain _ | ⟨⟨⟩, ⟨⟩⟩ := alike
      exact .bool value _ _ spells
  | name _ _ word not_true not_false names =>
      obtain _ | ⟨⟨⟩, others⟩ := alike
      exact .name _ _ word not_true not_false (names.alike others)
  | brackets _ _ _ _ _ ih =>
      obtain _ | ⟨⟨⟩, others⟩ := alike
      obtain ⟨inside, closing, rfl, alike_inside, alike_closing⟩ := Alike.exists_append others
      obtain _ | ⟨⟨⟩, ⟨⟩⟩ := alike_closing
      exact .brackets _ _ _ _ (ih alike_inside)
  | negate _ _ _ ih =>
      obtain _ | ⟨⟨⟩, others⟩ := alike
      exact .negate _ _ (ih others)
  | not _ _ spells _ ih =>
      obtain _ | ⟨⟨⟩, others⟩ := alike
      exact .not _ _ spells (ih others)
  | compare _ _ _ known _ ih_l ih_r =>
      obtain ⟨left, others, rfl, alike_l, alike_others⟩ := alike.exists_append
      obtain _ | ⟨⟨⟩, alike_r⟩ := alike_others
      exact .compare _ _ (ih_l alike_l) known (ih_r alike_r)
  | link eq _ links _ ih_l ih_r =>
      obtain ⟨front, right, rfl, alike_front, alike_r⟩ := alike.exists_append
      obtain ⟨left, between, rfl, alike_l, alike_between⟩ := alike_front.exists_append
      exact .link eq (ih_l alike_l) (links.alike alike_between alike_r) (ih_r alike_r)
  | tighter eq _ ih => exact .tighter eq (ih alike)

private theorem toOption_ofTokens_alike {tokens tokens' : List Token} (h : Alike tokens tokens') :
    (ofTokens tokens).toOption = (ofTokens tokens').toOption := by
  have moves {tokens tokens' : List Token} (h : Alike tokens tokens') {e : Expr}
      (read : (ofTokens tokens).toOption = some e) : (ofTokens tokens').toOption = some e := by
    obtain ⟨operators, le, nesting, bounded, derives⟩ :=
      derives_of_ofTokens (eq_ok_of_toOption read)
    rw [ofTokens_of_derives le ⟨nesting, bounded, derives.alike h⟩]
    rfl
  exact Option.ext fun e => ⟨moves h, moves h.symm⟩

end Expr

/-- Both fail, or both give something, and what they give is related. -/
inductive Agree {ε α β : Type} (R : α → β → Prop) : Except ε α → Except ε β → Prop
  | ok {a : α} {b : β} : R a b → Agree R (.ok a) (.ok b)
  | error (e e' : ε) : Agree R (.error e) (.error e')

namespace Agree

variable {ε α β α' β' : Type} {R : α → β → Prop} {S : α' → β' → Prop}

private theorem bind_of_ok {x : Except ε α} {y : Except ε β} {f : α → Except ε α'}
    {g : β → Except ε β'} (h : Agree R x y)
    (next : ∀ a b, x = .ok a → R a b → Agree S (f a) (g b)) : Agree S (x >>= f) (y >>= g) := by
  cases h with
  | ok related => exact next _ _ rfl related
  | error e e' => exact .error e e'

private theorem bind {x : Except ε α} {y : Except ε β} {f : α → Except ε α'} {g : β → Except ε β'}
    (h : Agree R x y) (next : ∀ a b, R a b → Agree S (f a) (g b)) :
    Agree S (x >>= f) (y >>= g) :=
  h.bind_of_ok fun a b _ => next a b

private theorem map {x : Except ε α} {y : Except ε β} {f : α → α'} {g : β → β'} (h : Agree R x y)
    (related : ∀ a b, R a b → S (f a) (g b)) : Agree S (x.map f) (y.map g) := by
  cases h with
  | ok h => exact .ok (related _ _ h)
  | error e e' => exact .error e e'

private theorem mapError {ε' : Type} {x : Except ε α} {y : Except ε β} (h : Agree R x y)
    (f g : ε → ε') : Agree R (x.mapError f) (y.mapError g) := by
  cases h with
  | ok related => exact .ok related
  | error e e' => exact .error _ _

private theorem of_toOption {x y : Except ε α} (h : x.toOption = y.toOption) : Agree Eq x y := by
  cases x with
  | error e =>
      cases y with
      | error e' => exact .error e e'
      | ok b => cases h
  | ok a =>
      cases y with
      | error e' => cases h
      | ok b =>
          cases h
          exact .ok rfl

end Agree

namespace Builder

/-- States that differ in places only. -/
structure State.Alike (s s' : State) : Prop where
  sheet : s.sheet = s'.sheet
  definitions : List.Forall₂ (fun d d' => d.1 = d'.1 ∧ ViewStyle.Alike d.2 d'.2) s.definitions
    s'.definitions
  serial : s.serial = s'.serial

def Leaves {α β : Type} (R : α → β → Prop) (read : α × List Token) (read' : β × List Token) :
    Prop :=
  R read.1 read'.1 ∧ Alike read.2 read'.2

section

variable {last last' : Option Span} {tokens tokens' : List Token}

private theorem agree_unexpected {α β : Type} {R : α → β → Prop} (expected expected' : Expectation)
    (tokens tokens' : List Token) :
    Agree R (unexpected last expected tokens) (unexpected last' expected' tokens') := by
  cases tokens <;> cases tokens' <;> exact .error _ _

private theorem agree_takeBrace (expected : Expectation) (h : Alike tokens tokens') :
    Agree Alike (takeBrace last expected tokens) (takeBrace last' expected tokens') := by
  unfold takeBrace
  split
  · obtain _ | ⟨⟨⟩, others⟩ := h
    exact .ok others
  · rename_i other
    split
    · obtain _ | ⟨⟨⟩, others⟩ := h
      exact absurd rfl (other _ _ _)
    · exact agree_unexpected _ _ _ _

private theorem alike_skipSemicolon (h : Alike tokens tokens') :
    Alike (skipSemicolon tokens) (skipSemicolon tokens') := by
  unfold skipSemicolon
  split
  · obtain _ | ⟨⟨⟩, others⟩ := h
    exact others
  · rename_i other
    split
    · obtain _ | ⟨⟨⟩, others⟩ := h
      exact absurd rfl (other _ _ _)
    · exact h

private theorem agree_takeAssignment (h : Alike tokens tokens') :
    Agree Alike (takeAssignment last tokens) (takeAssignment last' tokens') := by
  unfold takeAssignment
  split
  · obtain _ | ⟨⟨⟩, others⟩ := h
    exact .ok others
  · obtain _ | ⟨⟨⟩, others⟩ := h
    exact .ok others
  · rename_i no_sign no_colon
    split
    · obtain _ | ⟨⟨⟩, others⟩ := h
      exact absurd rfl (no_sign _ _ _)
    · obtain _ | ⟨⟨⟩, others⟩ := h
      exact absurd rfl (no_colon _ _ _)
    · exact agree_unexpected _ _ _ _

private theorem agree_takeGroup (depth : Nat) (h : Alike tokens tokens') :
    Agree (Leaves Alike) (takeGroup last depth tokens) (takeGroup last' depth tokens') := by
  induction h generalizing depth with
  | nil => exact agree_unexpected _ _ _ _
  | cons alike others ih =>
      obtain ⟨kind, span, span', spaced⟩ := alike
      unfold takeGroup
      dsimp only
      split
      · exact .ok ⟨.nil, others⟩
      · exact (ih _).bind fun _ _ taken =>
          .ok ⟨.cons (.intro kind span span' spaced) taken.1, taken.2⟩

private theorem agree_takeValue (depth : Nat) (h : Alike tokens tokens') :
    Agree (Leaves Alike) (takeValue last depth tokens) (takeValue last' depth tokens') := by
  induction h generalizing depth with
  | nil => exact agree_unexpected _ _ _ _
  | cons alike others ih =>
      obtain ⟨kind, span, span', spaced⟩ := alike
      by_cases goes_on : depth = 0 → kind.isPlain = true
      · rw [takeValue_cons last goes_on, takeValue_cons last' goes_on]
        exact (ih _).map fun _ _ taken => ⟨.cons (.intro kind span span' spaced) taken.1, taken.2⟩
      · rw [Classical.not_imp] at goes_on
        obtain ⟨rfl, ends⟩ := goes_on
        rcases Token.Kind.eq_of_not_plain ends with rfl | rfl | rfl | rfl
        · exact .ok ⟨.nil, .cons (.intro _ span span' spaced) others⟩
        · exact .error _ _
        · exact .error _ _
        · exact .ok ⟨.nil, .cons (.intro _ span span' spaced) others⟩

private theorem alike_respaced {reference reference' : Token} (h : Token.Alike reference reference')
    (alike : Alike tokens tokens') :
    Alike (respaced reference tokens) (respaced reference' tokens') := by
  cases h
  cases alike with
  | nil => exact .nil
  | cons first others =>
      cases first
      exact .cons (.intro _ _ _ _) others

private theorem State.Alike.lookup {s s' : State} (h : s.Alike s') (name : String) :
    Option.Rel ViewStyle.Alike (s.definitions.lookup name) (s'.definitions.lookup name) := by
  generalize s.definitions = definitions, s'.definitions = definitions', h.definitions = each
  induction each with
  | nil => exact .none
  | @cons d d' _ _ same _ ih =>
      obtain ⟨key, definition⟩ := d
      obtain ⟨key', definition'⟩ := d'
      obtain ⟨equal, alike⟩ := same
      cases equal
      rw [List.lookup_cons, List.lookup_cons]
      split
      · exact .some alike
      · exact ih

private theorem agree_substitute {s s' : State} (same : s.Alike s') (h : Alike tokens tokens') :
    Agree Alike (s.substitute tokens) (s'.substitute tokens') := by
  induction h with
  | nil => exact .ok .nil
  | cons alike others ih =>
      obtain ⟨kind, span, span', spaced⟩ := alike
      have itself := Token.Alike.intro kind span span' spaced
      unfold State.substitute
      cases kind with
      | atWord name =>
          dsimp only
          have found := same.lookup name
          revert found
          generalize s.definitions.lookup name = x, s'.definitions.lookup name = y
          rintro (alike | _)
          · exact ih.bind fun _ _ rest => .ok ((alike_respaced itself alike).append rest)
          · exact .error _ _
      | _ => exact ih.bind fun _ _ rest => .ok (.cons itself rest)

private theorem agree_value (registry : Registry) (important : Bool) {s s' : State}
    (same : s.Alike s') (h : Alike tokens tokens') :
    Agree (fun v v' => v.1 = v'.1 ∧ v.2.Alike v'.2) (s.value registry tokens important)
      (s'.value registry tokens' important) := by
  unfold State.value
  rw [← h.render_eq, ← Literal.ofTokens_alike h, ← same.serial]
  dsimp only
  split
  · exact .ok ⟨rfl, same⟩
  · split
    · exact .error _ _
    · exact .ok ⟨rfl, same.sheet, same.definitions, rfl⟩

private theorem agree_condition (h : Alike tokens tokens') :
    Agree Eq (Condition.ofTokens tokens) (Condition.ofTokens tokens') :=
  (Agree.of_toOption (Expr.toOption_ofTokens_alike h)).map fun _ _ equal => by rw [equal]

private theorem agree_takeConditions {s s' : State} (same : s.Alike s') (before : Option Condition)
    (h : Alike tokens tokens') :
    Agree (Leaves Eq) (takeConditions last s before tokens)
      (takeConditions last' s' before tokens') := by
  -- A group and its brackets are taken off the front, so the induction is on the length.
  induction length : tokens.length using Nat.strongRecOn generalizing tokens tokens' before with
  | ind n ih =>
      by_cases stop : NoSquare tokens
      · have stop' : NoSquare tokens' := by
          rintro token rest rfl square
          obtain _ | ⟨⟨⟩, _⟩ := h
          exact stop _ _ rfl square
        rw [takeConditions_stop last s before stop, takeConditions_stop last' s' before stop']
        exact .ok ⟨rfl, h⟩
      · obtain ⟨⟨kind, span, spaced⟩, rest, rfl, square⟩ :
            ∃ token rest, tokens = token :: rest ∧ token.kind = .punct (.opening .square) := by
          simpa [NoSquare] using stop
        cases square
        obtain _ | ⟨⟨⟩, others⟩ := h
        rw [takeConditions_open, takeConditions_open]
        refine (agree_takeGroup 0 others).bind_of_ok fun taken taken' found alike => ?_
        have shorter := length_takeGroup last found
        rw [List.length_cons] at length
        refine (agree_substitute same alike.1).bind fun group group' replaced => ?_
        refine ((agree_condition replaced).mapError _ _).bind fun c c' equal => ?_
        rw [equal]
        exact ih _ (by omega) _ alike.2 rfl

private theorem agree_takeQualifier (h : Alike tokens tokens') :
    Agree (Leaves Eq) (takeQualifier last tokens) (takeQualifier last' tokens') := by
  unfold takeQualifier
  split
  · obtain _ | ⟨⟨⟩, others⟩ := h
    dsimp only
    cases others with
    | nil => exact .error _ _
    | cons alike others =>
        obtain ⟨kind, span, span', spaced⟩ := alike
        cases kind with
        | ident name => exact .ok ⟨rfl, others⟩
        | _ => exact .error _ _
  · rename_i other
    split
    · obtain _ | ⟨⟨⟩, others⟩ := h
      exact absurd rfl (other _ _ _)
    · exact .ok ⟨rfl, h⟩

private theorem agree_takeRefinement {s s' : State} (same : s.Alike s') (h : Alike tokens tokens') :
    Agree (Leaves Eq) (takeRefinement last s tokens) (takeRefinement last' s' tokens') := by
  refine (agree_takeConditions same none h).bind fun read read' conditions => ?_
  refine (agree_takeQualifier conditions.2).bind fun _ _ qualifier => .ok ⟨?_, qualifier.2⟩
  dsimp only
  rw [conditions.1, qualifier.1]

private theorem agree_takeTarget (h : Alike tokens tokens') :
    Agree (Leaves Eq) (takeTarget last tokens) (takeTarget last' tokens') := by
  cases h with
  | nil => exact .error _ _
  | cons alike others =>
      obtain ⟨kind, span, span', spaced⟩ := alike
      cases kind with
      | ident name => exact .ok ⟨rfl, others⟩
      | hash name => exact .ok ⟨rfl, others⟩
      | punct mark =>
          cases mark with
          | dot =>
              cases others with
              | nil => exact .error _ _
              | cons alike others =>
                  obtain ⟨kind, span, span', spaced⟩ := alike
                  cases kind with
                  | ident name =>
                      cases spaced with
                      | false => exact .ok ⟨rfl, others⟩
                      | true => exact .error _ _
                  | _ => exact .error _ _
          | _ => exact .error _ _
      | _ => exact .error _ _

private theorem agree_takeSelector {s s' : State} (same : s.Alike s') (h : Alike tokens tokens') :
    Agree (Leaves Eq) (takeSelector last s tokens) (takeSelector last' s' tokens') := by
  refine (agree_takeTarget h).bind fun read read' target => ?_
  refine (agree_takeRefinement same target.2).bind fun _ _ refinement => .ok ⟨?_, refinement.2⟩
  dsimp only
  rw [target.1, refinement.1]

private theorem agree_takeSelectors {s s' : State} (same : s.Alike s') (h : Alike tokens tokens') :
    Agree (Leaves Eq) (takeSelectors last s tokens) (takeSelectors last' s' tokens') := by
  induction length : tokens.length using Nat.strongRecOn generalizing tokens tokens' with
  | ind n ih =>
      rw [takeSelectors_eq, takeSelectors_eq]
      refine (agree_takeSelector same h).bind_of_ok fun read read' found both => ?_
      obtain ⟨selector, rest⟩ := read
      obtain ⟨selector', rest'⟩ := read'
      obtain ⟨equal, alike⟩ := both
      have shorter := length_takeSelector last found
      dsimp only at equal alike ⊢
      rw [← equal]
      split
      · obtain _ | ⟨⟨⟩, others⟩ := alike
        rw [List.length_cons] at shorter
        refine (ih _ (by omega) others rfl).bind fun _ _ more => .ok ⟨?_, more.2⟩
        dsimp only
        rw [more.1]
      · rename_i no_comma
        split
        · obtain _ | ⟨⟨⟩, others⟩ := alike
          exact absurd rfl (no_comma _ _ _)
        · exact .ok ⟨rfl, alike⟩

private theorem agree_takeKey (key : List Char) (h : Alike tokens tokens') :
    Agree (Leaves Eq) (takeKey last key tokens) (takeKey last' key tokens') := by
  induction h generalizing key with
  | nil => exact agree_unexpected _ _ _ _
  | cons alike others ih =>
      obtain ⟨kind, span, span', spaced⟩ := alike
      unfold takeKey
      dsimp only
      split
      · exact ih _
      · exact ih _
      · exact .ok ⟨rfl, others⟩
      · exact agree_unexpected _ _ _ _

private theorem alike_takeImportance (h : Alike tokens tokens') :
    Alike (takeImportance tokens).1 (takeImportance tokens').1 ∧
      (takeImportance tokens).2 = (takeImportance tokens').2 := by
  have backwards : Alike tokens.reverse tokens'.reverse := List.forall₂_reverse_iff.2 h
  unfold takeImportance
  split
  · rename_i value reversed
    rw [reversed] at backwards
    generalize tokens'.reverse = reversed' at backwards ⊢
    obtain _ | ⟨⟨⟩, _ | ⟨⟨⟩, front⟩⟩ := backwards
    dsimp only
    split
    · exact ⟨List.forall₂_reverse_iff.2 front, rfl⟩
    · exact ⟨h, rfl⟩
  · rename_i unmarked
    split
    · rename_i reversed
      rw [reversed] at backwards
      generalize tokens.reverse = reversed' at backwards unmarked
      obtain _ | ⟨⟨⟩, _ | ⟨⟨⟩, front⟩⟩ := backwards
      exact absurd rfl (unmarked _ _ _ _ _ _)
    · exact ⟨h, rfl⟩

abbrev Advances (read read' : State × List Token) : Prop :=
  read.1.Alike read'.1 ∧ Alike read.2 read'.2

private theorem agree_declaration (registry : Registry) (selectors : List Selector) {s s' : State}
    (same : s.Alike s') (h : Alike tokens tokens') :
    Agree Advances (declaration last registry s selectors tokens)
      (declaration last' registry s' selectors tokens') := by
  unfold declaration
  refine (agree_takeKey [] h).bind fun key key' path => ?_
  refine (agree_takeValue 0 path.2).bind fun value value' taken => ?_
  obtain ⟨written, important⟩ := alike_takeImportance taken.1
  dsimp only
  rw [written.isEmpty_eq]
  split
  · exact agree_unexpected _ _ _ _
  · refine (agree_substitute same written).bind fun _ _ replaced => ?_
    rw [important]
    refine (agree_value registry _ same replaced).bind fun read read' result => ?_
    obtain ⟨equal, state⟩ := result
    refine .ok ⟨⟨?_, state.definitions, state.serial⟩, alike_skipSemicolon taken.2⟩
    dsimp only
    rw [state.sheet, equal, path.1]

private theorem agree_definition (registry : Registry) (name : String) {s s' : State}
    (same : s.Alike s') (h : Alike tokens tokens') :
    Agree Advances (definition last registry s name tokens)
      (definition last' registry s' name tokens') := by
  unfold definition
  refine (agree_takeAssignment h).bind fun _ _ sign => ?_
  refine (agree_takeValue 0 sign).bind fun value value' taken => ?_
  dsimp only
  rw [taken.1.isEmpty_eq]
  split
  · exact agree_unexpected _ _ _ _
  · refine (agree_substitute same taken.1).bind fun _ _ replaced => ?_
    refine (agree_value registry false same replaced).bind fun read read' result => ?_
    obtain ⟨equal, state⟩ := result
    refine .ok ⟨⟨?_, .cons ⟨rfl, replaced⟩ state.definitions, state.serial⟩,
      alike_skipSemicolon taken.2⟩
    dsimp only
    rw [state.sheet, equal]

private theorem agree_refineAll (selectors : List Selector) (r : Refinement) (span span' : Span) :
    Agree Eq (refineAll selectors r span) (refineAll selectors r span') := by
  induction selectors with
  | nil => exact .ok rfl
  | cons selector rest ih =>
      unfold refineAll at ih ⊢
      rw [List.mapM_cons, List.mapM_cons]
      cases selector.refine r.condition r.qualifier with
      | error conflict => exact .error _ _
      | ok refined =>
          refine ih.bind fun _ _ equal => ?_
          rw [equal]
          exact .ok rfl

private theorem State.Alike.introduceAll {s s' : State} (same : s.Alike s')
    (selectors : List Selector) : (s.introduceAll selectors).Alike (s'.introduceAll selectors) := by
  refine ⟨?_, same.definitions, same.serial⟩
  unfold State.introduceAll
  rw [same.sheet]

structure Progress.Alike (p p' : Progress) : Prop where
  state : p.state.Alike p'.state
  scopes : p.scopes = p'.scopes
  rest : ViewStyle.Alike p.rest p'.rest

private theorem agree_topLevel {s s' : State} (same : s.Alike s') {token token' : Token}
    (first : Token.Alike token token') (h : Alike tokens tokens') :
    Agree Progress.Alike (topLevel last s token tokens) (topLevel last' s' token' tokens') := by
  have block : Agree Progress.Alike
      (takeSelectors last s (token :: tokens) >>= fun read =>
        takeBrace last .selectorEnd read.2 >>= fun rest =>
          .ok ⟨s.introduceAll read.1, [.rules read.1], rest⟩)
      (takeSelectors last' s' (token' :: tokens') >>= fun read =>
        takeBrace last' .selectorEnd read.2 >>= fun rest =>
          .ok ⟨s'.introduceAll read.1, [.rules read.1], rest⟩) := by
    refine (agree_takeSelectors same (.cons first h)).bind fun read read' heads => ?_
    refine (agree_takeBrace _ heads.2).bind fun _ _ brace => ?_
    rw [heads.1]
    exact .ok ⟨same.introduceAll _, rfl, brace⟩
  obtain ⟨kind, span, span', spaced⟩ := first
  unfold topLevel
  dsimp only
  split
  · exact .ok ⟨same, rfl, h⟩
  · split
    · exact (agree_takeBrace _ h).bind fun _ _ brace => .ok ⟨same, rfl, brace⟩
    · exact .error _ _
  · exact block

private theorem agree_inGlobals (registry : Registry) (outer : List Scope) {s s' : State}
    (same : s.Alike s') {token token' : Token} (first : Token.Alike token token')
    (h : Alike tokens tokens') :
    Agree Progress.Alike (inGlobals last registry s outer token tokens)
      (inGlobals last' registry s' outer token' tokens') := by
  obtain ⟨kind, span, span', spaced⟩ := first
  unfold inGlobals
  dsimp only
  split
  · exact .ok ⟨same, rfl, h⟩
  · exact .ok ⟨same, rfl, h⟩
  · exact (agree_definition registry _ same h).bind fun _ _ read => .ok ⟨read.1, rfl, read.2⟩
  · exact .error _ _

private theorem agree_inRules (registry : Registry) (selectors : List Selector) (outer : List Scope)
    {s s' : State} (same : s.Alike s') {token token' : Token} (first : Token.Alike token token')
    (h : Alike tokens tokens') :
    Agree Progress.Alike (inRules last registry s selectors outer token tokens)
      (inRules last' registry s' selectors outer token' tokens') := by
  obtain ⟨kind, span, span', spaced⟩ := first
  unfold inRules
  dsimp only
  split
  · exact .ok ⟨same, rfl, h⟩
  · exact .ok ⟨same, rfl, h⟩
  · refine (agree_takeRefinement same h).bind fun read read' refinement => ?_
    refine (agree_takeBrace _ refinement.2).bind fun _ _ brace => ?_
    rw [refinement.1]
    refine (agree_refineAll selectors _ _ _).bind fun nested _ equal => ?_
    rw [← equal]
    exact .ok ⟨same.introduceAll _, rfl, brace⟩
  · refine (agree_declaration registry selectors same (.cons (.intro _ _ _ _) h)).bind
      fun _ _ read => .ok ⟨read.1, rfl, read.2⟩

private theorem agree_statement (registry : Registry) (scopes : List Scope) {s s' : State}
    (same : s.Alike s') {token token' : Token} (first : Token.Alike token token')
    (h : Alike tokens tokens') :
    Agree Progress.Alike (statement last registry s scopes token tokens)
      (statement last' registry s' scopes token' tokens') := by
  unfold statement
  split
  · exact agree_topLevel same first h
  · exact agree_inGlobals registry _ same first h
  · exact agree_inRules registry _ _ same first h

theorem agree_run (registry : Registry) (scopes : List Scope) {s s' : State} (same : s.Alike s')
    (h : Alike tokens tokens') :
    Agree State.Alike (run last registry s scopes tokens)
      (run last' registry s' scopes tokens') := by
  -- A statement uses up its first token, so the induction is on the number of tokens.
  induction length : tokens.length using Nat.strongRecOn
    generalizing s s' scopes tokens tokens' with
  | ind n ih =>
      cases h with
      | nil =>
          unfold run
          split
          · exact .ok same
          · exact agree_unexpected _ _ _ _
      | @cons token token' rest rest' first others =>
          rw [run_cons, run_cons]
          refine (agree_statement registry scopes same first others).bind_of_ok
            fun p p' found both => ?_
          obtain ⟨state, scopes_eq, rest_alike⟩ := both
          have shorter := length_statement last found
          rw [List.length_cons] at length
          rw [← scopes_eq]
          exact ih _ (by omega) _ state rest_alike rfl

end

theorem State.Alike.refl (s : State) : s.Alike s :=
  ⟨rfl, List.forall₂_same.2 fun _ _ => ⟨rfl, .refl _⟩, rfl⟩

/-- The place of a token shows in messages only. -/
theorem build_alike (registry : Registry) (serial : Nat) {tokens tokens' : List Token}
    (h : ViewStyle.Alike tokens tokens') :
    Agree State.Alike (build registry serial tokens) (build registry serial tokens') :=
  agree_run registry [] (.refl _) h

end Builder

end ViewStyle
