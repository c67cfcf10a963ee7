/-
A stylesheet is read as what it does to the state of the reader, and where it does nothing the
reader fails. The outline is read once and for all: it is enough that properties and definitions,
however they are written, are read as what they do.
-/

import ViewStyle.Proofs.Stylesheet.Expansion

set_option autoImplicit false

namespace ViewStyle

open Text (Span)

namespace Outline

def Enclosed (r : Restriction) : Prop :=
  ∀ group ∈ r.conditions, Unbroken (· == .punct (.closing .square)) 0 group

instance (r : Restriction) : Decidable (Enclosed r) := inferInstanceAs (Decidable (∀ _ ∈ _, _))

end Outline

namespace Builder

open Outline (Assigns Body Block Enclosed Head Restriction Semantics Separated Spelling
  WrittenConditions WrittenDefinitions WrittenHeads WrittenQualifier WrittenTarget)

/-- The value that some tokens write, what they stand for, and the state after reading it. -/
def State.evaluate (registry : Registry) (s : State) (written : List Token) (important : Bool) :
    Option (List Token × Value × State) :=
  if written.isEmpty then none
  else
    (s.substitute written).toOption.bind fun tokens =>
      (s.value registry tokens important).toOption.map fun (value, s) => (tokens, value, s)

/-- The property of some selectors is set, under the next number. -/
def State.declare (s : State) (selectors : List Selector) (path : String) (value : Value) : State :=
  let (order, rules) := s.sheet.rules.nextOrder
  let rules :=
    selectors.foldl (fun rules selector => rules.declare selector (.ofText path) value order) rules
  { s with sheet := { s.sheet with rules } }

def State.define (s : State) (name : String) (replacement : List Token) (value : Value) : State :=
  { s with
    sheet := { s.sheet with globals := s.sheet.globals.insert (.ofText name) value }
    definitions := (name, replacement) :: s.definitions }

section

variable (last : Option Span)

def NoSquare (tokens : List Token) : Prop :=
  ∀ token rest, tokens = token :: rest → token.kind ≠ .punct (.opening .square)

theorem takeConditions_stop (s : State) (before : Option Condition) {tokens : List Token}
    (stop : NoSquare tokens) : takeConditions last s before tokens = .ok (before, tokens) := by
  unfold takeConditions
  split
  · exact absurd rfl (stop _ _ rfl)
  · rfl

theorem takeConditions_open (s : State) (before : Option Condition) (span : Span) (spaced : Bool)
    (rest : List Token) :
    takeConditions last s before (⟨.punct (.opening .square), span, spaced⟩ :: rest) =
      takeGroup last 0 rest >>= fun taken => s.substitute taken.1 >>= fun group =>
        (Condition.ofTokens group).mapError (fun e => .ofCondition e (some span)) >>= fun next =>
          takeConditions last s (Selector.bothConditions before (some next)) taken.2 := by
  conv => lhs; unfold takeConditions
  dsimp only
  split
  · rename_i failed
    rw [failed]
    rfl
  · rename_i group rest' found
    rw [found, ok_bind]
    cases s.substitute group with
    | error e => rfl
    | ok group =>
        dsimp only
        rw [ok_bind]
        cases Condition.ofTokens group <;> rfl

theorem toOption_substitute (s : State) (tokens : List Token) :
    (s.substitute tokens).toOption = Outline.expand s.definitions tokens := by
  induction tokens with
  | nil => rfl
  | cons token rest ih =>
      rw [Outline.expand_cons, ← ih, State.substitute, Outline.replacement]
      cases token.kind with
      | atWord name =>
          dsimp only
          cases s.definitions.lookup name with
          | none => rfl
          | some definition => cases s.substitute rest <;> rfl
      | _ => cases s.substitute rest <;> rfl

private theorem toOption_takeConditions (s : State) {groups : List (List Token)}
    {tokens : List Token} (written : WrittenConditions groups tokens)
    (enclosed : ∀ group ∈ groups, Unbroken (· == .punct (.closing .square)) 0 group)
    {rest : List Token} (stop : NoSquare rest) (before : Option Condition) :
    (takeConditions last s before (tokens ++ rest)).toOption =
      (groups.mapM (Outline.condition s.definitions)).map fun conditions =>
        (conditions.foldl (fun before next => Selector.bothConditions before (some next)) before,
          rest) := by
  induction written generalizing before with
  | nil =>
      rw [List.nil_append, takeConditions_stop last s before stop]
      rfl
  | cons group span span' spaced spaced' _ ih =>
      obtain ⟨here, others⟩ := List.forall_mem_cons.1 enclosed
      rw [List.cons_append, List.append_assoc, List.cons_append, takeConditions_open,
        takeGroup_of_unbroken last here, ok_bind, toOption_bind, toOption_substitute,
        List.mapM_cons, Outline.condition]
      cases Outline.expand s.definitions group with
      | none => rfl
      | some expanded =>
          dsimp only [Option.bind_some]
          cases Condition.ofTokens expanded with
          | error e => rfl
          | ok c =>
              have rest_eq := ih others (Selector.bothConditions before (some c))
              refine rest_eq.trans ?_
              cases List.mapM (Outline.condition s.definitions) _ <;> rfl

inductive Follows : List Token → Prop
  | comma (span : Span) (spaced : Bool) (rest : List Token) :
      Follows (⟨.punct .comma, span, spaced⟩ :: rest)
  | brace (span : Span) (spaced : Bool) (rest : List Token) :
      Follows (⟨.punct (.opening .brace), span, spaced⟩ :: rest)

private theorem takeQualifier_of_written {qualifier : Option String} {tokens : List Token}
    (written : WrittenQualifier qualifier tokens) {rest : List Token} (follows : Follows rest) :
    takeQualifier last (tokens ++ rest) = .ok (qualifier, rest) ∧ NoSquare (tokens ++ rest) := by
  cases written with
  | absent =>
      cases follows with
      | comma span spaced rest =>
          refine ⟨rfl, ?_⟩
          rintro _ _ ⟨⟩ ⟨⟩
      | brace span spaced rest =>
          refine ⟨rfl, ?_⟩
          rintro _ _ ⟨⟩ ⟨⟩
  | colon name span span' spaced spaced' =>
      refine ⟨rfl, ?_⟩
      rintro _ _ ⟨⟩ ⟨⟩

private theorem toOption_takeRefinement (s : State) {r : Restriction} {tokens : List Token}
    (enclosed : Enclosed r) (written : r.Written tokens) {rest : List Token}
    (follows : Follows rest) :
    (takeRefinement last s (tokens ++ rest)).toOption =
      (r.condition s.definitions).map fun condition => (⟨condition, r.qualifier⟩, rest) := by
  obtain ⟨groups, qualified⟩ := written
  obtain ⟨qualifier_eq, stop⟩ := takeQualifier_of_written last qualified follows
  rw [takeRefinement, toOption_bind, List.append_assoc,
    toOption_takeConditions last s groups enclosed stop, Restriction.condition]
  cases r.conditions.mapM (Outline.condition s.definitions) with
  | none => rfl
  | some conditions =>
      dsimp only [Option.map_some, Option.bind_some]
      rw [qualifier_eq]
      rfl

private theorem takeTarget_of_written {target : Target} {tokens : List Token}
    (written : WrittenTarget target tokens) (rest : List Token) :
    takeTarget last (tokens ++ rest) = .ok (target, rest) := by
  cases written <;> rfl

private theorem toOption_takeSelector (s : State) {h : Head} {tokens : List Token}
    (enclosed : Enclosed h.restriction) (written : h.Written tokens) {rest : List Token}
    (follows : Follows rest) :
    (takeSelector last s (tokens ++ rest)).toOption =
      (h.selector s.definitions).map fun selector => (selector, rest) := by
  obtain ⟨target, restriction⟩ := written
  rw [takeSelector, List.append_assoc, takeTarget_of_written last target, ok_bind, toOption_bind,
    toOption_takeRefinement last s enclosed restriction follows, Head.selector]
  cases h.restriction.condition s.definitions <;> rfl

theorem takeSelectors_eq (s : State) (tokens : List Token) :
    takeSelectors last s tokens =
      takeSelector last s tokens >>= fun read =>
        match read.2 with
        | ⟨.punct .comma, _, _⟩ :: rest =>
            takeSelectors last s rest >>= fun others => .ok (read.1 :: others.1, others.2)
        | rest => .ok ([read.1], rest) := by
  conv => lhs; unfold takeSelectors
  split
  · rename_i failed
    rw [failed]
    rfl
  · rename_i rest found
    dsimp only
    rw [found, ok_bind]
    dsimp only
    cases takeSelectors last s rest <;> rfl
  · rename_i no_comma found
    rw [found, ok_bind]
    dsimp only
    split
    · exact absurd rfl (no_comma _ _ _)
    · rfl

private theorem toOption_takeSelectors (s : State) {heads : List Head} {tokens : List Token}
    (enclosed : ∀ h ∈ heads, Enclosed h.restriction) (written : WrittenHeads heads tokens)
    (span : Span) (spaced : Bool) (rest : List Token) :
    (takeSelectors last s (tokens ++ ⟨.punct (.opening .brace), span, spaced⟩ :: rest)).toOption =
      (heads.mapM (Head.selector s.definitions)).map fun selectors =>
        (selectors, ⟨.punct (.opening .brace), span, spaced⟩ :: rest) := by
  induction written with
  | @last head tokens written =>
      rw [List.forall_mem_singleton] at enclosed
      rw [takeSelectors_eq, toOption_bind,
        toOption_takeSelector last s enclosed written (.brace span spaced rest), List.mapM_cons]
      cases head.selector s.definitions <;> rfl
  | @comma head heads tokens others span' spaced' written _ ih =>
      obtain ⟨here, there⟩ := List.forall_mem_cons.1 enclosed
      rw [List.append_assoc, List.cons_append, takeSelectors_eq, toOption_bind,
        toOption_takeSelector last s here written (.comma span' spaced' _), List.mapM_cons]
      cases head.selector s.definitions with
      | none => rfl
      | some selector =>
          dsimp only [Option.map_some, Option.bind_some]
          rw [toOption_bind, ih there]
          cases heads.mapM (Head.selector s.definitions) <;> rfl

private theorem toOption_refineAll (selectors : List Selector) (r : Refinement) (span : Span) :
    (refineAll selectors r span).toOption =
      selectors.mapM fun selector => (selector.refine r.condition r.qualifier).toOption := by
  induction selectors with
  | nil => rfl
  | cons selector rest ih =>
      unfold refineAll at ih ⊢
      rw [List.mapM_cons, List.mapM_cons, ← ih]
      cases selector.refine r.condition r.qualifier with
      | error conflict => rfl
      | ok refined =>
          dsimp only
          rw [ok_bind, toOption_bind]
          rfl

private theorem takeBrace_brace (expected : Expectation) (span : Span) (spaced : Bool)
    (rest : List Token) :
    takeBrace last expected (⟨.punct (.opening .brace), span, spaced⟩ :: rest) = .ok rest :=
  rfl

theorem takeAssignment_of_assigns {sign : Token} (assigns : Assigns sign.kind)
    (rest : List Token) : takeAssignment last (sign :: rest) = .ok rest := by
  obtain ⟨kind, span, spaced⟩ := sign
  rcases assigns with assigns | assigns
  · cases assigns
    rfl
  · cases assigns
    rfl

theorem toOption_unexpected {α : Type} (expected : Expectation) (tokens : List Token) :
    (unexpected last expected tokens : Except ReadError α).toOption = none := by
  cases tokens <;> rfl

theorem toOption_evaluate {registry : Registry} {α : Type} (s : State) (written : List Token)
    (important : Bool) (tokens : List Token)
    (f : List Token → Value × State → Except ReadError α) :
    (if written.isEmpty then unexpected last .value tokens
      else s.substitute written >>= fun replacement =>
        s.value registry replacement important >>= f replacement).toOption =
      (s.evaluate registry written important).bind fun read => (f read.1 read.2).toOption := by
  unfold State.evaluate
  split
  · exact toOption_unexpected last _ _
  · rw [toOption_bind]
    cases s.substitute written with
    | error e => rfl
    | ok replacement =>
        dsimp only [Except.toOption, Option.bind_some]
        cases s.value registry replacement important <;> rfl

variable {registry : Registry}

theorem run_nil (s : State) : run last registry s [] [] = .ok s := by
  unfold run
  rfl

theorem run_cons (registry : Registry) (s : State) (scopes : List Scope) (token : Token)
    (rest : List Token) :
    run last registry s scopes (token :: rest) =
      statement last registry s scopes token rest >>= fun p =>
        run last registry p.state p.scopes p.rest := by
  conv => lhs; unfold run
  split
  · rename_i failed
    rw [failed]
    rfl
  · rename_i found
    dsimp only
    rw [found, ok_bind]

private theorem run_step {s : State} {scopes : List Scope} {token : Token} {rest : List Token}
    {p : Progress} (h : statement last registry s scopes token rest = .ok p) :
    run last registry s scopes (token :: rest) = run last registry p.state p.scopes p.rest := by
  rw [run_cons, h, ok_bind]

private theorem run_semicolon (s : State) (scopes : List Scope) (span : Span) (spaced : Bool)
    (rest : List Token) :
    run last registry s scopes (⟨.punct .semicolon, span, spaced⟩ :: rest) =
      run last registry s scopes rest := by
  cases scopes with
  | nil => exact run_step last (p := ⟨s, [], rest⟩) rfl
  | cons scope outer =>
      cases scope with
      | globals => exact run_step last (p := ⟨s, .globals :: outer, rest⟩) rfl
      | rules selectors => exact run_step last (p := ⟨s, .rules selectors :: outer, rest⟩) rfl

private theorem run_skipSemicolon (s : State) (scopes : List Scope) (tokens : List Token) :
    run last registry s scopes (skipSemicolon tokens) = run last registry s scopes tokens := by
  unfold skipSemicolon
  split
  · rw [run_semicolon]
  · rfl

private theorem run_closing (s : State) (scope : Scope) (outer : List Scope) (span : Span)
    (spaced : Bool) (rest : List Token) :
    run last registry s (scope :: outer) (⟨.punct (.closing .brace), span, spaced⟩ :: rest) =
      run last registry s outer rest := by
  cases scope with
  | globals => exact run_step last (p := ⟨s, outer, rest⟩) rfl
  | rules selectors => exact run_step last (p := ⟨s, outer, rest⟩) rfl

private theorem statement_target (registry : Registry) {target : Target} {tokens : List Token}
    (written : WrittenTarget target tokens) :
    ∃ token others, tokens = token :: others ∧
      ∀ s rest, statement last registry s [] token rest =
        takeSelectors last s (token :: rest) >>= fun read =>
          takeBrace last .selectorEnd read.2 >>= fun rest =>
            .ok ⟨s.introduceAll read.1, [.rules read.1], rest⟩ := by
  cases written <;> exact ⟨_, _, rfl, fun _ _ => rfl⟩

theorem endsValue_of_separated {tokens : List Token} (h : Separated tokens) (span : Span)
    (spaced : Bool) (after : List Token) :
    EndsValue (tokens ++ ⟨.punct (.closing .brace), span, spaced⟩ :: after) := by
  rcases h with rfl | ⟨span', spaced', rest, rfl⟩
  · exact ⟨_, _, rfl, .inr rfl⟩
  · exact ⟨_, _, rfl, .inl rfl⟩

private theorem toOption_run_nested {restriction : Restriction} {narrowed : List Token}
    (enclosed : Enclosed restriction) (written : restriction.Written narrowed) (s : State)
    (selectors : List Selector) (outer : List Scope) (span span' : Span) (spaced spaced' : Bool)
    (rest : List Token) :
    (run last registry s (.rules selectors :: outer)
        (⟨.punct .ampersand, span, spaced⟩ ::
          (narrowed ++ ⟨.punct (.opening .brace), span', spaced'⟩ :: rest))).toOption =
      (restriction.refine s.definitions selectors).bind fun nested =>
        (run last registry (s.introduceAll nested) (.rules nested :: .rules selectors :: outer)
          rest).toOption := by
  have step : statement last registry s (.rules selectors :: outer)
      ⟨.punct .ampersand, span, spaced⟩
      (narrowed ++ ⟨.punct (.opening .brace), span', spaced'⟩ :: rest) =
        takeRefinement last s (narrowed ++ ⟨.punct (.opening .brace), span', spaced'⟩ :: rest) >>=
          fun refinement => takeBrace last .nestedBlock refinement.2 >>= fun rest =>
            refineAll selectors refinement.1 span >>= fun nested =>
              .ok ⟨s.introduceAll nested, .rules nested :: .rules selectors :: outer, rest⟩ := rfl
  rw [run_cons, step, toOption_bind, toOption_bind,
    toOption_takeRefinement last s enclosed written (.brace span' spaced' rest),
    Restriction.refine]
  cases restriction.condition s.definitions with
  | none => rfl
  | some condition =>
      dsimp only [Option.map_some, Option.bind_some]
      rw [takeBrace_brace, ok_bind, toOption_bind, toOption_refineAll]
      cases selectors.mapM fun s => (s.refine condition restriction.qualifier).toOption <;> rfl

end

/-- Properties and definitions are read as what they do. Properties start with a name, so that they
are taken for declarations, and the conditions that may be end with their brackets. -/
structure Reads {π ν : Type} (registry : Registry) (spelling : Spelling π ν)
    (semantics : Semantics State π ν) : Prop where
  definitions : semantics.definitions = State.definitions
  opened : semantics.opened = State.introduceAll
  enclosed : ∀ r, spelling.admits r → Enclosed r
  named : ∀ p tokens, spelling.property p tokens →
    ∃ name span spaced others, tokens = ⟨.ident name, span, spaced⟩ :: others
  declaration : ∀ last p tokens, spelling.property p tokens → ∀ s selectors rest, EndsValue rest →
    (Builder.declaration last registry s selectors (tokens ++ rest)).toOption =
      (semantics.declare s selectors p).map fun s => (s, skipSemicolon rest)
  definition : ∀ last name value sign, Assigns sign.kind → ∀ s rest, EndsValue rest →
    (Builder.definition last registry s name (sign :: (spelling.value value ++ rest))).toOption =
      (semantics.define s (name, value)).map fun s => (s, skipSemicolon rest)

section

variable (last : Option Span) {registry : Registry} {π ν : Type} {spelling : Spelling π ν}
  {semantics : Semantics State π ν} (reads : Reads registry spelling semantics)

include reads

private theorem toOption_run_declaration {p : π} {tokens : List Token}
    (written : spelling.property p tokens) (s : State) (selectors : List Selector) (outer : List Scope) {rest : List Token}
    (ends : EndsValue rest) :
    (run last registry s (.rules selectors :: outer) (tokens ++ rest)).toOption =
      (semantics.declare s selectors p).bind fun s =>
        (run last registry s (.rules selectors :: outer) rest).toOption := by
  have read := reads.declaration last p tokens written s selectors rest ends
  obtain ⟨name, span, spaced, others, rfl⟩ := reads.named p tokens written
  rw [List.cons_append] at read ⊢
  have step : statement last registry s (.rules selectors :: outer) ⟨.ident name, span, spaced⟩
      (others ++ rest) =
        declaration last registry s selectors (⟨.ident name, span, spaced⟩ :: (others ++ rest)) >>=
          fun read => .ok ⟨read.1, .rules selectors :: outer, read.2⟩ := rfl
  rw [run_cons, toOption_bind, step, toOption_bind, read]
  cases semantics.declare s selectors p with
  | none => rfl
  | some s' => exact congrArg Except.toOption (run_skipSemicolon last s' _ rest)

private theorem toOption_run_body {body : Body π} {tokens : List Token}
    (written : body.Written spelling tokens) (s : State) (selectors : List Selector)
    (outer : List Scope) (span : Span) (spaced : Bool) (after : List Token) :
    (run last registry s (.rules selectors :: outer)
        (tokens ++ ⟨.punct (.closing .brace), span, spaced⟩ :: after)).toOption =
      (body.effect semantics selectors s).bind fun s =>
        (run last registry s outer after).toOption := by
  -- By induction on how the body is written, for every state and every rest of the tokens.
  induction written generalizing s selectors outer span spaced after with
  | done => exact congrArg Except.toOption (run_closing last s _ outer span spaced after)
  | stray span' spaced' _ ih =>
      rw [List.cons_append, run_semicolon]
      exact ih s selectors outer span spaced after
  | @declare property next tokens rest written _ separated ih =>
      have ends := endsValue_of_separated separated span spaced after
      rw [List.append_assoc, toOption_run_declaration last reads written s selectors outer ends,
        Body.effect, Option.bind_assoc]
      exact congrArg _ (funext fun s' => ih s' selectors outer span spaced after)
  | nest span₁ span₂ span₃ spaced₁ spaced₂ spaced₃ admitted written _ _ ih_inside ih_next =>
      simp only [List.cons_append, List.append_assoc]
      rw [toOption_run_nested last (reads.enclosed _ admitted) written, Body.effect,
        reads.definitions, reads.opened, Option.bind_assoc]
      refine congrArg _ (funext fun nested => ?_)
      -- Inside, the block around the nested one is one more open scope, and its rest comes after.
      rw [ih_inside, Option.bind_assoc]
      exact congrArg _ (funext fun s' => ih_next s' selectors outer span spaced after)

private theorem toOption_run_definitions {definitions : List (String × ν)} {tokens : List Token}
    (written : WrittenDefinitions spelling.value definitions tokens) (s : State) (outer : List Scope)
    (span : Span) (spaced : Bool) (after : List Token) :
    (run last registry s (.globals :: outer)
        (tokens ++ ⟨.punct (.closing .brace), span, spaced⟩ :: after)).toOption =
      (definitions.foldlM semantics.define s).bind fun s =>
        (run last registry s outer after).toOption := by
  induction written generalizing s with
  | nil => exact congrArg Except.toOption (run_closing last s _ outer span spaced after)
  | stray span' spaced' _ ih =>
      rw [List.cons_append, run_semicolon]
      exact ih s
  | @define name value sign definitions rest span' spaced' assigns _ separated ih =>
      have ends := endsValue_of_separated separated span spaced after
      have read := reads.definition last name value sign assigns s _ ends
      have step : statement last registry s (.globals :: outer) ⟨.atWord name, span', spaced'⟩
          (sign :: (spelling.value value ++
            (rest ++ ⟨.punct (.closing .brace), span, spaced⟩ :: after))) =
            definition last registry s name (sign :: (spelling.value value ++
              (rest ++ ⟨.punct (.closing .brace), span, spaced⟩ :: after))) >>=
                fun read => .ok ⟨read.1, .globals :: outer, read.2⟩ := rfl
      rw [List.cons_append, List.cons_append, List.append_assoc, run_cons, step, toOption_bind,
        toOption_bind, read, List.foldlM_cons]
      cases semantics.define s (name, value) with
      | none => rfl
      | some s' =>
          refine (congrArg Except.toOption (run_skipSemicolon last s' _ _)).trans ?_
          exact ih s'

private theorem toOption_run_block {block : Block π ν} {tokens : List Token}
    (written : block.Written spelling tokens) (s : State) (after : List Token) :
    (run last registry s [] (tokens ++ after)).toOption =
      (block.effect semantics s).bind fun s => (run last registry s [] after).toOption := by
  cases written with
  | @globals word definitions inside span span' span'' spaced spaced' spaced'' spells written =>
      have step rest : statement last registry s [] ⟨.atWord word, span, spaced⟩
          (⟨.punct (.opening .brace), span', spaced'⟩ :: rest) = .ok ⟨s, [.globals], rest⟩ := by
        rw [statement, topLevel]
        dsimp only
        rw [if_pos spells, takeBrace_brace, ok_bind]
      simp only [List.cons_append, List.append_assoc, List.nil_append]
      rw [run_step last (step _), toOption_run_definitions last reads written]
      rfl
  | @rules first others body heads inside span span' spaced spaced' admitted heads_written
      written =>
      have enclosed : ∀ h ∈ first :: others, Enclosed h.restriction :=
        fun h member => reads.enclosed _ (admitted h member)
      have taken := toOption_takeSelectors last s enclosed heads_written span spaced
        (inside ++ ⟨.punct (.closing .brace), span', spaced'⟩ :: after)
      obtain ⟨target, front, behind, rfl, target_written⟩ := heads_written.exists_target
      obtain ⟨token, tail, rfl, starts⟩ := statement_target last registry target_written
      simp only [List.cons_append, List.append_assoc, List.nil_append] at taken ⊢
      rw [run_cons, starts, toOption_bind, toOption_bind, taken, Block.effect, reads.definitions,
        reads.opened]
      cases (first :: others).mapM (Head.selector s.definitions) with
      | none => rfl
      | some selectors =>
          dsimp only [Option.map_some, Option.bind_some]
          rw [takeBrace_brace, ok_bind]
          exact toOption_run_body last reads written (s.introduceAll selectors) selectors [] span'
            spaced' after

/-- A stylesheet is read as what its blocks do to the state, one after the other. -/
theorem toOption_run_written {blocks : List (Block π ν)} {tokens : List Token}
    (written : Outline.Written spelling blocks tokens) (s : State) (after : List Token) :
    (run last registry s [] (tokens ++ after)).toOption =
      (blocks.foldlM (Block.effect semantics) s).bind fun s =>
        (run last registry s [] after).toOption := by
  induction written generalizing s with
  | nil => rfl
  | stray span spaced _ ih =>
      rw [List.cons_append, run_semicolon]
      exact ih s
  | block written _ ih =>
      rw [List.append_assoc, toOption_run_block last reads written, List.foldlM_cons]
      exact (congrArg _ (funext fun s' => ih s')).trans (Option.bind_assoc _ _ _).symm

theorem toOption_build {serial : Nat} {blocks : List (Block π ν)} {tokens : List Token}
    (written : Outline.Written spelling blocks tokens) :
    (build registry serial tokens).toOption =
      blocks.foldlM (Block.effect semantics) (.start serial) := by
  have run_eq := toOption_run_written (tokens.getLast?.map (·.span)) reads written (.start serial) []
  rw [List.append_nil] at run_eq
  rw [build, run_eq]
  simp only [run_nil]
  exact Option.bind_fun_some _

end

end Builder

end ViewStyle
