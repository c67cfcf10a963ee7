/-
Every stylesheet that is read is a draft. Each reader that succeeds took tokens that are written as
what it reads; what the open blocks still ask of the tokens is a relation of its own, which goes
through a run from its end to its start. So a stylesheet is read if and only if it is a draft that
does something to the state, and then it is read as what the draft does.
-/

import ViewStyle.Proofs.Stylesheet.Draft

set_option autoImplicit false

namespace ViewStyle

open Text (Span)

namespace Draft

private theorem starts_of_body {body : Body} {token : Token} {rest : List Token}
    (h : body.Written spelling (token :: rest)) : token.kind ≠ .punct (.closing .brace) := by
  generalize tokens_eq : token :: rest = tokens at h
  cases h with
  | done => cases tokens_eq
  | stray span spaced _ =>
      cases tokens_eq
      rintro ⟨⟩
  | declare written _ _ =>
      obtain @⟨key, span, spaced, key_eq⟩ := written
      obtain ⟨⟨kind, span', spaced'⟩, others, rfl, kind_eq, -⟩ := List.map_eq_cons_iff.1 key_eq
      cases kind_eq
      cases tokens_eq
      rintro ⟨⟩
  | nest _ _ _ _ _ _ _ _ _ _ =>
      cases tokens_eq
      rintro ⟨⟩

private theorem starts_of_definitions {definitions : List (String × Phrase)} {token : Token}
    {rest : List Token} (h : Outline.WrittenDefinitions Phrase.tokens definitions (token :: rest)) :
    token.kind ≠ .punct (.closing .brace) := by
  cases h with
  | stray => rintro ⟨⟩
  | define => rintro ⟨⟩

end Draft

namespace Builder

open Outline (Assigns Enclosed Head Restriction Separated WrittenConditions WrittenDefinitions
  WrittenHeads WrittenQualifier WrittenTarget)

section

variable {last : Option Span}

private theorem takeBrace_eq_ok {expected : Expectation} {tokens rest : List Token}
    (h : takeBrace last expected tokens = .ok rest) :
    ∃ span spaced, tokens = ⟨.punct (.opening .brace), span, spaced⟩ :: rest := by
  unfold takeBrace at h
  split at h
  · cases h
    exact ⟨_, _, rfl⟩
  · exact absurd h (unexpected_ne_ok last)

private theorem takeAssignment_eq_ok {tokens rest : List Token}
    (h : takeAssignment last tokens = .ok rest) :
    ∃ sign, tokens = sign :: rest ∧ Assigns sign.kind := by
  unfold takeAssignment at h
  split at h
  · cases h
    exact ⟨_, rfl, .inl rfl⟩
  · cases h
    exact ⟨_, rfl, .inr rfl⟩
  · exact absurd h (unexpected_ne_ok last)

private theorem takeGroup_eq_ok {depth : Nat} {tokens group rest : List Token}
    (h : takeGroup last depth tokens = .ok (group, rest)) :
    Unbroken (· == .punct (.closing .square)) depth group ∧
      ∃ span spaced, tokens = group ++ ⟨.punct (.closing .square), span, spaced⟩ :: rest := by
  induction tokens generalizing depth group with
  | nil => cases h
  | cons token tokens ih =>
      unfold takeGroup at h
      split at h
      · rename_i here
        obtain ⟨rfl, square⟩ := here
        cases h
        obtain ⟨kind, span, spaced⟩ := token
        obtain rfl : kind = .punct (.closing .square) := Token.Kind.eq_of_punct_beq square
        exact ⟨rfl, span, spaced, rfl⟩
      · rename_i other
        obtain ⟨⟨inside, rest'⟩, taken, h⟩ := bind_eq_ok h
        cases h
        obtain ⟨unbroken, span, spaced, rfl⟩ := ih taken
        refine ⟨⟨fun outermost => ?_, unbroken⟩, span, spaced, rfl⟩
        simpa [outermost] using other

theorem takeValue_eq_ok {depth : Nat} {tokens value rest : List Token}
    (h : takeValue last depth tokens = .ok (value, rest)) :
    Unbroken (fun kind => !kind.isPlain) depth value ∧ EndsValue rest ∧ tokens = value ++ rest := by
  induction tokens generalizing depth value with
  | nil => cases h
  | cons token tokens ih =>
      by_cases goes_on : depth = 0 → token.kind.isPlain = true
      · rw [takeValue_cons last goes_on] at h
        cases taken : takeValue last (Token.depthAfter token.kind depth) tokens with
        | error e =>
            rw [taken] at h
            cases h
        | ok result =>
            obtain ⟨inside, rest'⟩ := result
            rw [taken] at h
            cases h
            obtain ⟨unbroken, ends, rfl⟩ := ih taken
            exact ⟨⟨fun outermost => by simpa using goes_on outermost, unbroken⟩, ends, rfl⟩
      · rw [Classical.not_imp] at goes_on
        obtain ⟨rfl, stops⟩ := goes_on
        obtain ⟨kind, span, spaced⟩ := token
        rcases Token.Kind.eq_of_not_plain stops with rfl | rfl | rfl | rfl
        · cases h
          exact ⟨rfl, ⟨_, _, rfl, .inl rfl⟩, rfl⟩
        · cases h
        · cases h
        · cases h
          exact ⟨rfl, ⟨_, _, rfl, .inr rfl⟩, rfl⟩

private theorem takeConditions_eq_ok {s : State} {before result : Option Condition}
    {tokens rest : List Token} (h : takeConditions last s before tokens = .ok (result, rest)) :
    ∃ groups front, tokens = front ++ rest ∧ WrittenConditions groups front ∧
      ∀ group ∈ groups, Unbroken (· == .punct (.closing .square)) 0 group := by
  fun_induction takeConditions last s before tokens with
  | case1 => cases h
  | case2 => cases h
  | case3 => cases h
  | case4 before span spaced _ group _ taken _ _ _ _ _ ih =>
      obtain ⟨groups, front, rfl, written, unbroken⟩ := ih h
      obtain ⟨here, span', spaced', rfl⟩ := takeGroup_eq_ok taken
      exact ⟨group :: groups, _, by simp, .cons group span span' spaced spaced' written,
        List.forall_mem_cons.2 ⟨here, unbroken⟩⟩
  | case5 =>
      cases h
      exact ⟨[], [], rfl, .nil, List.forall_mem_nil _⟩

private theorem takeQualifier_eq_ok {qualifier : Option String} {tokens rest : List Token}
    (h : takeQualifier last tokens = .ok (qualifier, rest)) :
    ∃ front, tokens = front ++ rest ∧ WrittenQualifier qualifier front := by
  unfold takeQualifier at h
  split at h
  · split at h
    · cases h
    · rename_i token _
      obtain ⟨kind, span, spaced⟩ := token
      dsimp only at h
      split at h
      · cases h
        exact ⟨_, rfl, .colon _ _ _ _ _⟩
      · cases h
  · cases h
    exact ⟨[], rfl, .absent⟩

private theorem takeRefinement_eq_ok {s : State} {refinement : Refinement}
    {tokens rest : List Token} (h : takeRefinement last s tokens = .ok (refinement, rest)) :
    ∃ (r : Restriction) (front : List Token),
      tokens = front ++ rest ∧ r.Written front ∧ Enclosed r := by
  obtain ⟨⟨_, middle⟩, conditions, h⟩ := bind_eq_ok h
  obtain ⟨⟨qualifier, _⟩, qualified, h⟩ := bind_eq_ok h
  cases h
  obtain ⟨groups, front, rfl, written, enclosed⟩ := takeConditions_eq_ok conditions
  obtain ⟨front', rfl, written'⟩ := takeQualifier_eq_ok qualified
  exact ⟨⟨groups, qualifier⟩, front ++ front', (List.append_assoc _ _ _).symm,
    .intro written written', enclosed⟩

private theorem takeTarget_eq_ok {target : Target} {tokens rest : List Token}
    (h : takeTarget last tokens = .ok (target, rest)) :
    ∃ front, tokens = front ++ rest ∧ WrittenTarget target front := by
  unfold takeTarget at h
  split at h
  · cases h
  · split at h
    · cases h
      exact ⟨_, rfl, .dot _ _ _ _⟩
    · cases h
  · cases h
    exact ⟨_, rfl, .class _ _ _⟩
  · cases h
    exact ⟨_, rfl, .hash _ _ _⟩
  · exact absurd h (unexpected_ne_ok last)

private theorem takeSelector_eq_ok {s : State} {selector : Selector} {tokens rest : List Token}
    (h : takeSelector last s tokens = .ok (selector, rest)) :
    ∃ (head : Head) (front : List Token),
      tokens = front ++ rest ∧ head.Written front ∧ Enclosed head.restriction := by
  obtain ⟨⟨target, middle⟩, targeted, h⟩ := bind_eq_ok h
  obtain ⟨⟨refinement, _⟩, refined, h⟩ := bind_eq_ok h
  cases h
  obtain ⟨front, rfl, written⟩ := takeTarget_eq_ok targeted
  obtain ⟨r, front', rfl, written', enclosed⟩ := takeRefinement_eq_ok refined
  exact ⟨⟨target, r⟩, front ++ front', (List.append_assoc _ _ _).symm, .intro written written',
    enclosed⟩

private theorem takeSelectors_eq_ok {s : State} {selectors : List Selector}
    {tokens rest : List Token} (h : takeSelectors last s tokens = .ok (selectors, rest)) :
    ∃ first others front, tokens = front ++ rest ∧ WrittenHeads (first :: others) front ∧
      ∀ head ∈ first :: others, Enclosed head.restriction := by
  fun_induction takeSelectors last s tokens generalizing selectors with
  | case1 => cases h
  | case2 => cases h
  | case3 tokens selector span spaced middle taken _ others _ found ih =>
      cases h
      obtain ⟨head, front, rfl, written, enclosed⟩ := takeSelector_eq_ok taken
      obtain ⟨first, others, front', rfl, written', enclosed'⟩ := ih found
      exact ⟨head, first :: others, _, by simp, .comma span spaced written written',
        List.forall_mem_cons.2 ⟨enclosed, enclosed'⟩⟩
  | case4 tokens selector _ _ taken =>
      cases h
      obtain ⟨head, front, rfl, written, enclosed⟩ := takeSelector_eq_ok taken
      exact ⟨head, [], front, rfl, .last written, List.forall_mem_singleton.2 enclosed⟩

private theorem takeKey_eq_ok {path result : List Char} {tokens rest : List Token}
    (h : takeKey last path tokens = .ok (result, rest)) :
    ∃ key span spaced, tokens = key ++ ⟨.punct .colon, span, spaced⟩ :: rest ∧
      .punct .colon ∉ key.map (·.kind) := by
  induction tokens generalizing path with
  | nil => cases h
  | cons token tokens ih =>
      obtain ⟨kind, span, spaced⟩ := token
      unfold takeKey at h
      dsimp only at h
      split at h
      · obtain ⟨key, span', spaced', rfl, named⟩ := ih h
        exact ⟨_ :: key, span', spaced', rfl, by simpa using named⟩
      · obtain ⟨key, span', spaced', rfl, named⟩ := ih h
        exact ⟨_ :: key, span', spaced', rfl, by simpa using named⟩
      · cases h
        exact ⟨[], span, spaced, rfl, by simp⟩
      · exact absurd h (unexpected_ne_ok last)

private theorem takeKey_nil_eq_ok {result : List Char} {tokens rest : List Token}
    (h : takeKey last [] tokens = .ok (result, rest)) :
    ∃ name span' spaced' others span spaced,
      tokens = ⟨.ident name, span', spaced'⟩ ::
        (others ++ ⟨.punct .colon, span, spaced⟩ :: rest) ∧
      .punct .colon ∉ others.map (·.kind) := by
  cases tokens with
  | nil => cases h
  | cons token tokens =>
      obtain ⟨kind, span', spaced'⟩ := token
      have awaits : awaitsName [] = true := rfl
      rw [takeKey, awaits] at h
      cases kind with
      | ident name =>
          obtain ⟨others, span, spaced, rfl, named⟩ := takeKey_eq_ok h
          exact ⟨name, span', spaced', others, span, spaced, rfl, named⟩
      | punct mark => cases mark <;> exact absurd h (unexpected_ne_ok last)
      | _ => exact absurd h (unexpected_ne_ok last)

private theorem declaration_eq_ok {registry : Registry} {s s' : State} {selectors : List Selector}
    {tokens rest : List Token} (h : declaration last registry s selectors tokens = .ok (s', rest)) :
    ∃ (p : Draft.Property) (front rest' : List Token),
      tokens = front ++ rest' ∧ p.Written front ∧ EndsValue rest' ∧ rest = skipSemicolon rest' := by
  obtain ⟨⟨path, middle⟩, keyed, h⟩ := bind_eq_ok h
  obtain ⟨⟨value, rest'⟩, valued, h⟩ := bind_eq_ok h
  dsimp only at h
  split at h
  · exact absurd h (unexpected_ne_ok last)
  · obtain ⟨_, -, h⟩ := bind_eq_ok h
    obtain ⟨⟨_, _⟩, -, h⟩ := bind_eq_ok h
    cases h
    obtain ⟨name, span', spaced', others, span, spaced, rfl, named⟩ := takeKey_nil_eq_ok keyed
    obtain ⟨whole, ends, rfl⟩ := takeValue_eq_ok valued
    exact ⟨⟨name, others.map (·.kind), ⟨value, whole⟩, named⟩, _, rest', by simp,
      @Draft.Property.Written.intro _ (⟨.ident name, span', spaced'⟩ :: others) span spaced rfl,
      ends, rfl⟩

private theorem definition_eq_ok {registry : Registry} {s s' : State} {name : String}
    {tokens rest : List Token} (h : definition last registry s name tokens = .ok (s', rest)) :
    ∃ (value : Draft.Phrase) (sign : Token) (rest' : List Token),
      tokens = sign :: (value.tokens ++ rest') ∧ Assigns sign.kind ∧ EndsValue rest' ∧
        rest = skipSemicolon rest' := by
  obtain ⟨middle, assigned, h⟩ := bind_eq_ok h
  obtain ⟨⟨value, rest'⟩, valued, h⟩ := bind_eq_ok h
  dsimp only at h
  split at h
  · exact absurd h (unexpected_ne_ok last)
  · obtain ⟨_, -, h⟩ := bind_eq_ok h
    obtain ⟨⟨_, _⟩, -, h⟩ := bind_eq_ok h
    cases h
    obtain ⟨sign, rfl, assigns⟩ := takeAssignment_eq_ok assigned
    obtain ⟨whole, ends, rfl⟩ := takeValue_eq_ok valued
    exact ⟨⟨value, whole⟩, sign, rest', rfl, assigns, ends, rfl⟩

private theorem exists_separated {motive : List Token → Prop} {rest : List Token}
    (ends : EndsValue rest)
    (starts : ∀ token tokens, motive (token :: tokens) → token.kind ≠ .punct (.closing .brace))
    (stray : ∀ span spaced tokens, motive tokens →
      motive (⟨.punct .semicolon, span, spaced⟩ :: tokens))
    {inside : List Token} {span : Span} {spaced : Bool} {after : List Token}
    (written : motive inside)
    (h : skipSemicolon rest = inside ++ ⟨.punct (.closing .brace), span, spaced⟩ :: after) :
    ∃ inside', rest = inside' ++ ⟨.punct (.closing .brace), span, spaced⟩ :: after ∧
      motive inside' ∧ Separated inside' := by
  obtain ⟨⟨kind, span', spaced'⟩, rest, rfl, here⟩ := ends
  rcases here with here | here
  · cases here
    obtain rfl : rest = _ := h
    exact ⟨_ :: inside, rfl, stray _ _ _ written, .inr ⟨_, _, _, rfl⟩⟩
  · cases here
    cases inside with
    | nil => exact ⟨[], h, written, .inl rfl⟩
    | cons token tokens =>
        obtain ⟨rfl, -⟩ := List.cons.inj (show _ :: _ = token :: _ from h)
        exact absurd rfl (starts _ _ written)

/-- What the open blocks still ask of the tokens, from the inside out: each of them its statements
and its closing brace, and then more blocks may follow. -/
def Closes : List Scope → List Token → Prop
  | [], tokens => ∃ blocks, Draft.Written blocks tokens
  | .globals :: outer, tokens =>
      ∃ definitions inside span spaced rest,
        WrittenDefinitions Draft.Phrase.tokens definitions inside ∧
        tokens = inside ++ ⟨.punct (.closing .brace), span, spaced⟩ :: rest ∧ Closes outer rest
  | .rules _ :: outer, tokens =>
      ∃ (body : Draft.Body) (inside : List Token) (span : Span) (spaced : Bool) (rest : List Token),
        body.Written Draft.spelling inside ∧
        tokens = inside ++ ⟨.punct (.closing .brace), span, spaced⟩ :: rest ∧ Closes outer rest

private theorem closes_topLevel {s : State} {token : Token} {rest : List Token} {p : Progress}
    (h : topLevel last s token rest = .ok p) (closes : Closes p.scopes p.rest) :
    Closes [] (token :: rest) := by
  obtain ⟨kind, span, spaced⟩ := token
  unfold topLevel at h
  dsimp only at h
  split at h
  · cases h
    obtain ⟨blocks, written⟩ := closes
    exact ⟨blocks, .stray span spaced written⟩
  · split at h
    · rename_i spells
      obtain ⟨rest', brace, h⟩ := bind_eq_ok h
      cases h
      obtain ⟨span', spaced', rfl⟩ := takeBrace_eq_ok brace
      obtain ⟨definitions, inside, span'', spaced'', rest'', written, eq, blocks, others⟩ := closes
      obtain rfl : rest' = _ := eq
      refine ⟨.globals definitions :: blocks, ?_⟩
      have block : (Outline.Block.globals definitions).Written Draft.spelling _ :=
        .globals span span' span'' spaced spaced' spaced'' spells written
      simpa using Outline.Written.block block others
    · cases h
  · obtain ⟨⟨selectors, middle⟩, heads, h⟩ := bind_eq_ok h
    obtain ⟨rest', brace, h⟩ := bind_eq_ok h
    cases h
    obtain ⟨first, others, front, eq, heads_written, enclosed⟩ := takeSelectors_eq_ok heads
    obtain ⟨span', spaced', rfl⟩ := takeBrace_eq_ok brace
    obtain ⟨body, inside, span'', spaced'', rest'', written, rest_eq, blocks, behind⟩ := closes
    obtain rfl : rest' = _ := rest_eq
    refine ⟨.rules first others body :: blocks, ?_⟩
    have block : (Outline.Block.rules first others body).Written Draft.spelling _ :=
      .rules span' span'' spaced' spaced'' enclosed heads_written written
    rw [eq]
    simpa using Outline.Written.block block behind

private theorem closes_inGlobals {registry : Registry} {s : State} {outer : List Scope}
    {token : Token} {rest : List Token} {p : Progress}
    (h : inGlobals last registry s outer token rest = .ok p) (closes : Closes p.scopes p.rest) :
    Closes (.globals :: outer) (token :: rest) := by
  obtain ⟨kind, span, spaced⟩ := token
  unfold inGlobals at h
  dsimp only at h
  split at h
  · cases h
    obtain ⟨definitions, inside, span', spaced', rest', written, eq, behind⟩ := closes
    obtain rfl : rest = _ := eq
    exact ⟨definitions, _ :: inside, span', spaced', rest', .stray span spaced written, rfl, behind⟩
  · cases h
    exact ⟨[], [], span, spaced, rest, .nil, rfl, closes⟩
  · rename_i name
    obtain ⟨⟨s', rest'⟩, defined, h⟩ := bind_eq_ok h
    cases h
    obtain ⟨value, sign, middle, rfl, assigns, ends, rfl⟩ := definition_eq_ok defined
    obtain ⟨definitions, inside, span', spaced', rest', written, eq, behind⟩ := closes
    obtain ⟨inside', rfl, written', separated⟩ := exists_separated
      (motive := WrittenDefinitions Draft.Phrase.tokens definitions) ends
      (fun _ _ h => Draft.starts_of_definitions h)
      (fun span spaced _ h => .stray span spaced h) written eq
    exact ⟨(name, value) :: definitions, _, span', spaced', rest',
      .define name value sign span spaced assigns written' separated, by simp, behind⟩
  · cases h

private theorem closes_inRules {registry : Registry} {s : State} {selectors : List Selector}
    {outer : List Scope} {token : Token} {rest : List Token} {p : Progress}
    (h : inRules last registry s selectors outer token rest = .ok p)
    (closes : Closes p.scopes p.rest) : Closes (.rules selectors :: outer) (token :: rest) := by
  obtain ⟨kind, span, spaced⟩ := token
  unfold inRules at h
  dsimp only at h
  split at h
  · cases h
    obtain ⟨body, inside, span', spaced', rest', written, eq, behind⟩ := closes
    obtain rfl : rest = _ := eq
    exact ⟨body, _ :: inside, span', spaced', rest', .stray span spaced written, rfl, behind⟩
  · cases h
    exact ⟨.done, [], span, spaced, rest, .done, rfl, closes⟩
  · obtain ⟨⟨refinement, middle⟩, refined, h⟩ := bind_eq_ok h
    obtain ⟨rest', brace, h⟩ := bind_eq_ok h
    obtain ⟨nested, -, h⟩ := bind_eq_ok h
    cases h
    obtain ⟨r, front, rfl, narrowed, enclosed⟩ := takeRefinement_eq_ok refined
    obtain ⟨span', spaced', rfl⟩ := takeBrace_eq_ok brace
    -- The rest is that of the nested block, and then that of the block around it.
    obtain ⟨body, inside, span'', spaced'', _, written, eq, next, within, span₃, spaced₃, rest₃,
      written', rfl, behind⟩ := closes
    obtain rfl : rest' = _ := eq
    exact ⟨.nest r body next, _, span₃, spaced₃, rest₃,
      .nest span span' span'' spaced spaced' spaced'' enclosed narrowed written written', by simp,
      behind⟩
  · obtain ⟨⟨s', rest'⟩, declared, h⟩ := bind_eq_ok h
    cases h
    obtain ⟨property, front, middle, eq, written, ends, rfl⟩ := declaration_eq_ok declared
    obtain ⟨body, inside, span', spaced', rest', inside_written, rest_eq, behind⟩ := closes
    obtain ⟨inside', rfl, written', separated⟩ := exists_separated
      (motive := body.Written Draft.spelling) ends (fun _ _ h => Draft.starts_of_body h)
      (fun span spaced _ h => .stray span spaced h) inside_written rest_eq
    exact ⟨.declare property body, front ++ inside', span', spaced', rest',
      .declare written written' separated, by rw [eq, List.append_assoc], behind⟩

private theorem closes_of_run {registry : Registry} {s s' : State} {scopes : List Scope}
    {tokens : List Token} (h : run last registry s scopes tokens = .ok s') :
    Closes scopes tokens := by
  fun_induction run last registry s scopes tokens with
  | case1 s => exact ⟨[], .nil⟩
  | case2 => exact absurd h (unexpected_ne_ok last)
  | case3 => cases h
  | case4 s scopes token rest p step _ ih =>
      have closes := ih h
      unfold statement at step
      split at step
      · exact closes_topLevel step closes
      · exact closes_inGlobals step closes
      · exact closes_inRules step closes

end

/-- Whatever is read is a draft. -/
theorem exists_written_of_build {registry : Registry} {serial : Nat} {tokens : List Token}
    {s : State} (h : build registry serial tokens = .ok s) :
    ∃ blocks, Draft.Written blocks tokens :=
  closes_of_run h

/-- A stylesheet is read if and only if it is a draft that does something to the state of the
reader, and it is read as what the draft does. -/
theorem build_eq_some_iff {registry : Registry} {serial : Nat} {tokens : List Token} {s : State} :
    (build registry serial tokens).toOption = some s ↔
      ∃ blocks, Draft.Written blocks tokens ∧
        blocks.foldlM (Outline.Block.effect (Draft.semantics registry)) (.start serial) =
          some s := by
  constructor
  · intro h
    obtain ⟨blocks, written⟩ := exists_written_of_build (eq_ok_of_toOption h)
    exact ⟨blocks, written, (toOption_build (reads_draft registry) written).symm.trans h⟩
  · rintro ⟨blocks, written, effect⟩
    exact (toOption_build (reads_draft registry) written).trans effect

end Builder

end ViewStyle
