/-
A block inside a block of rules is shorthand: the block around it may be closed before it and opened
again behind it, if the inner one is given all selectors with what refines them. The table keeps its
order, since selectors that come up again stay where they are, and declarations keep their numbers.
-/

import ViewStyle.Proofs.Stylesheet.Draft
import ViewStyle.Proofs.Stylesheet.Places
import ViewStyle.Proofs.Stylesheet.Replay
import ViewStyle.Token.Scan

set_option autoImplicit false

namespace ViewStyle

open Builder (State)
open Text (Span)

private theorem Selector.refine_of_accepts (s : Selector) (condition qualifier : _)
    (accepts : ∀ new ∈ qualifier, ∀ old ∈ s.qualifier, old = new) :
    s.refine condition qualifier =
      .ok ⟨s.target, qualifier.or s.qualifier, bothConditions s.condition condition⟩ := by
  obtain ⟨target, own, c⟩ := s
  cases qualifier with
  | none => rfl
  | some new =>
      cases own with
      | none => rfl
      | some old =>
          cases accepts new rfl old rfl
          simp [refine]

private theorem Selector.bothConditions_none (condition : Option Condition) :
    bothConditions condition none = condition := by
  cases condition <;> rfl

namespace Outline

def Body.append {π : Type} : Body π → Body π → Body π
  | .done, rest => rest
  | .declare property next, rest => .declare property (next.append rest)
  | .nest restriction inside next, rest => .nest restriction inside (next.append rest)

def narrow (r : Restriction) (h : Head) : Head :=
  ⟨h.target, ⟨h.restriction.conditions ++ r.conditions, r.qualifier.or h.restriction.qualifier⟩⟩

def Accepts (r : Restriction) (h : Head) : Prop :=
  ∀ new ∈ r.qualifier, ∀ old ∈ h.restriction.qualifier, old = new

private theorem condition_append (definitions : Definitions) (r extra : Restriction)
    (single : extra.conditions.length ≤ 1) (qualifier : Option String) :
    Restriction.condition definitions ⟨r.conditions ++ extra.conditions, qualifier⟩ =
      (r.condition definitions).bind fun condition =>
        (extra.condition definitions).map (Selector.bothConditions condition) := by
  unfold Restriction.condition
  rw [List.mapM_append]
  cases r.conditions.mapM (Outline.condition definitions) with
  | none => rfl
  | some conditions =>
      match extra.conditions, single with
      | [], _ => simp [Selector.bothConditions_none]
      | [group], _ =>
          cases h : Outline.condition definitions group <;>
            simp [h, List.mapM_cons, Selector.bothConditions]

private theorem selector_narrow (definitions : Definitions) {r : Restriction}
    (single : r.conditions.length ≤ 1) {h : Head} (accepts : Accepts r h) :
    (narrow r h).selector definitions =
      (h.selector definitions).bind fun s => (r.condition definitions).bind fun condition =>
        (s.refine condition r.qualifier).toOption := by
  unfold Head.selector narrow
  dsimp only
  rw [condition_append definitions h.restriction r single]
  cases h.restriction.condition definitions with
  | none => rfl
  | some own =>
      cases r.condition definitions with
      | none => rfl
      | some condition =>
          dsimp only [Option.map_some, Option.bind_some]
          rw [Selector.refine_of_accepts ⟨h.target, h.restriction.qualifier, own⟩ _ _ accepts]
          rfl

private theorem mapM_narrow (definitions : Definitions) {r : Restriction}
    (single : r.conditions.length ≤ 1) {first : Head} {others : List Head}
    (accepts : ∀ h ∈ first :: others, Accepts r h) :
    ((first :: others).map (narrow r)).mapM (Head.selector definitions) =
      ((first :: others).mapM (Head.selector definitions)).bind (r.refine definitions) := by
  have each : ((first :: others).map (narrow r)).mapM (Head.selector definitions) =
      (first :: others).mapM fun h => (h.selector definitions).bind fun s =>
        (r.condition definitions).bind fun condition =>
          (s.refine condition r.qualifier).toOption := by
    rw [List.mapM_map]
    exact mapM_congr fun h member => selector_narrow definitions single (accepts h member)
  rw [each]
  unfold Restriction.refine
  cases r.condition definitions with
  | none => simp [List.mapM_cons]
  | some condition => exact mapM_bind _ _ _

private theorem effect_append {σ π ν : Type} (semantics : Semantics σ π ν) (body rest : Body π)
    (selectors : List Selector) (s : σ) :
    (body.append rest).effect semantics selectors s =
      (body.effect semantics selectors s).bind (rest.effect semantics selectors) := by
  induction body generalizing s with
  | done => rfl
  | declare property next ih =>
      rw [Body.append, Body.effect, Body.effect, Option.bind_assoc]
      exact congrArg _ (funext ih)
  | nest restriction inside next _ ih =>
      rw [Body.append, Body.effect, Body.effect, Option.bind_assoc]
      refine congrArg _ (funext fun nested => ?_)
      rw [Option.bind_assoc]
      exact congrArg _ (funext ih)

end Outline

namespace Draft

open Outline (Accepts Head Restriction narrow)

/-- The variables are the same ones, and no selector is lost. -/
structure Keeps (s s' : State) : Prop where
  definitions : s'.definitions = s.definitions
  known : ∀ selector, (s.sheet.rules.leader? selector).isSome = true →
    (s'.sheet.rules.leader? selector).isSome = true

private theorem Keeps.refl (s : State) : Keeps s s := ⟨rfl, fun _ known => known⟩

private theorem Keeps.trans {s s' s'' : State} (h : Keeps s s') (h' : Keeps s' s'') : Keeps s s'' :=
  ⟨h'.definitions.trans h.definitions, fun selector known =>
    h'.known selector (h.known selector known)⟩

private theorem keeps_introduceAll (s : State) (selectors : List Selector) :
    Keeps s (s.introduceAll selectors) := by
  refine ⟨rfl, fun selector known => ?_⟩
  rw [State.introduceAll, Rules.leader?_foldl_introduce, Option.isSome_or, known, Bool.true_or]

private theorem keeps_declare (s : State) (selectors : List Selector) (path : String)
    (value : Value) : Keeps s (s.declare selectors path value) := by
  refine ⟨rfl, fun selector known => ?_⟩
  have same : ({ s.sheet.rules with count := s.sheet.rules.count + 1 } : Rules).leader? selector =
      s.sheet.rules.leader? selector := rfl
  rw [State.declare, Rules.nextOrder]
  dsimp only
  rw [Rules.leader?_foldl_declare, same, Option.isSome_or, known, Bool.true_or]

theorem keeps_value {registry : Registry} {s s' : State} {tokens : List Token} {important : Bool}
    {value : Value} (h : s.value registry tokens important = .ok (value, s')) : Keeps s s' := by
  unfold State.value at h
  dsimp only at h
  split at h
  · cases h
    exact .refl s
  · split at h
    · cases h
    · cases h
      exact ⟨rfl, fun _ known => known⟩

theorem keeps_evaluate {registry : Registry} {s s' : State} {written tokens : List Token}
    {important : Bool} {value : Value}
    (h : s.evaluate registry written important = some (tokens, value, s')) : Keeps s s' := by
  unfold State.evaluate at h
  split at h
  · cases h
  · obtain ⟨expanded, -, h⟩ := Option.bind_eq_some_iff.1 h
    obtain ⟨⟨value', read⟩, found, equal⟩ := Option.map_eq_some_iff.1 h
    cases equal
    exact keeps_value (eq_ok_of_toOption found)

theorem keeps_property {registry : Registry} {selectors : List Selector} {p : Property}
    {s s' : State} (h : p.effect registry selectors s = some s') : Keeps s s' := by
  obtain ⟨path, -, h⟩ := Option.bind_eq_some_iff.1 h
  obtain ⟨⟨tokens, value, read⟩, evaluates, rfl⟩ := Option.map_eq_some_iff.1 h
  exact (keeps_evaluate evaluates).trans (keeps_declare read selectors path value)

theorem keeps_body {registry : Registry} {body : Body} {selectors : List Selector} {s s' : State}
    (h : body.effect (semantics registry) selectors s = some s') : Keeps s s' := by
  induction body generalizing selectors s s' with
  | done =>
      cases h
      exact .refl s
  | declare property next ih =>
      obtain ⟨s₁, here, there⟩ := Option.bind_eq_some_iff.1 h
      exact (keeps_property here).trans (ih there)
  | nest restriction inside next ih_inside ih_next =>
      obtain ⟨nested, -, h⟩ := Option.bind_eq_some_iff.1 h
      obtain ⟨s₁, here, there⟩ := Option.bind_eq_some_iff.1 h
      exact ((keeps_introduceAll s nested).trans (ih_inside here)).trans (ih_next there)

private theorem introduceAll_of_known {s : State} {selectors : List Selector}
    (known : ∀ selector ∈ selectors, (s.sheet.rules.leader? selector).isSome = true) :
    s.introduceAll selectors = s := by
  unfold State.introduceAll
  suffices same : selectors.foldl Rules.introduce s.sheet.rules = s.sheet.rules by rw [same]
  induction selectors with
  | nil => rfl
  | cons selector rest ih =>
      obtain ⟨here, there⟩ := List.forall_mem_cons.1 known
      rw [Rules.leader?, Option.isSome_map] at here
      rw [List.foldl_cons, Rules.introduce, if_pos here]
      exact ih there

private theorem known_introduceAll (s : State) (selectors : List Selector) :
    ∀ selector ∈ selectors,
      ((s.introduceAll selectors).sheet.rules.leader? selector).isSome = true := by
  intro selector member
  rw [State.introduceAll, Rules.leader?_foldl_introduce, Option.isSome_or]
  have found : (selectors.find? (·.same selector)).isSome = true :=
    List.find?_isSome.2 ⟨selector, member, selector.same_self⟩
  rw [found, Bool.or_true]

private theorem effect_again {registry : Registry} {first : Head} {others : List Head}
    {s s' : State} {selectors : List Selector}
    (heads : (first :: others).mapM (Head.selector s.definitions) = some selectors)
    (keeps : Keeps (s.introduceAll selectors) s') (body : Body) :
    Outline.Block.effect (semantics registry) s' (.rules first others body) =
      body.effect (semantics registry) selectors s' := by
  have known : s'.introduceAll selectors = s' :=
    introduceAll_of_known fun selector member =>
      keeps.known selector (known_introduceAll s selectors selector member)
  have definitions : s'.definitions = s.definitions := keeps.definitions
  rw [effect_rules, definitions, heads, Option.bind_some, known]

/-- A block of rules and, between two parts of its body, a nested block. There is at most one
further condition, and no other trait tag. -/
structure Nesting where
  first : Head
  others : List Head
  restriction : Restriction
  before : Body
  inside : Body
  behind : Body
  single : restriction.conditions.length ≤ 1
  accepts : ∀ h ∈ first :: others, Accepts restriction h

namespace Nesting

/-- The block with the nested one inside it. -/
def block (n : Nesting) : Block :=
  .rules n.first n.others (n.before.append (.nest n.restriction n.inside n.behind))

/-- What it is short for: the block up to the nested one, the nested one for the narrowed heads, and
the block from there on. -/
def blocks (n : Nesting) : List Block :=
  [.rules n.first n.others n.before,
    .rules (narrow n.restriction n.first) (n.others.map (narrow n.restriction)) n.inside,
    .rules n.first n.others n.behind]

private theorem effect_blocks (registry : Registry) (n : Nesting) (s : State) :
    n.blocks.foldlM (Outline.Block.effect (semantics registry)) s =
      n.block.effect (semantics registry) s := by
  unfold blocks block
  simp only [List.foldlM_cons, List.foldlM_nil, Option.bind_eq_bind]
  rw [effect_rules, effect_rules]
  cases heads : (n.first :: n.others).mapM (Head.selector s.definitions) with
  | none => rfl
  | some selectors =>
      dsimp only [Option.bind_some]
      rw [Outline.effect_append]
      cases here : n.before.effect (semantics registry) selectors (s.introduceAll selectors) with
      | none => rfl
      | some s₁ =>
          have keeps : Keeps (s.introduceAll selectors) s₁ := keeps_body here
          have definitions : s₁.definitions = s.definitions := keeps.definitions
          have narrowed := Outline.mapM_narrow s₁.definitions n.single n.accepts
          rw [definitions, heads, Option.bind_some, List.map_cons, ← definitions] at narrowed
          dsimp only [Option.bind_some]
          rw [effect_nest, effect_rules, narrowed]
          cases n.restriction.refine s₁.definitions selectors with
          | none => rfl
          | some nested =>
              dsimp only [Option.bind_some]
              cases within :
                  n.inside.effect (semantics registry) nested (s₁.introduceAll nested) with
              | none => rfl
              | some s₂ =>
                  have keeps₂ : Keeps (s.introduceAll selectors) s₂ :=
                    keeps.trans ((keeps_introduceAll s₁ nested).trans (keeps_body within))
                  dsimp only [Option.bind_some]
                  rw [effect_again heads keeps₂]
                  cases n.behind.effect (semantics registry) selectors s₂ <;> rfl

end Nesting

end Draft

namespace Builder

private theorem Agree.map_sheet {x y : Except ReadError State} (h : Agree State.Alike x y) :
    x.toOption.map (·.sheet) = y.toOption.map (·.sheet) := by
  cases h with
  | ok same => exact congrArg some same.sheet
  | error e e' => rfl

/-- What a draft at the start of a stylesheet leads to, wherever its tokens stand. -/
theorem sheet_of_draft {registry : Registry} {serial : Nat} {blocks : List Draft.Block}
    {written tokens after : List Token} (h : Draft.Written blocks written)
    (alike : Alike tokens (written ++ after)) :
    (build registry serial tokens).toOption.map (·.sheet) =
      ((blocks.foldlM (Outline.Block.effect (Draft.semantics registry)) (.start serial)).bind fun s =>
        (run none registry s [] after).toOption).map (·.sheet) := by
  have same : Agree State.Alike (build registry serial tokens)
      (run none registry (.start serial) [] (written ++ after)) :=
    agree_run registry [] (.refl _) alike
  rw [Agree.map_sheet same, toOption_run_written none (reads_draft registry) h]

/-- Nesting is shorthand in any stylesheet: wherever the tokens stand, the same stylesheet is read
from a block with a nested one and from the blocks that it is short for, or none from both. -/
theorem sheet_unnest {registry : Registry} {serial : Nat} {n : Draft.Nesting}
    {front : List Draft.Block} {nested flat after : List Token}
    (nested_written : Draft.Written (front ++ [n.block]) nested)
    (flat_written : Draft.Written (front ++ n.blocks) flat) {tokens tokens' : List Token}
    (alike : Alike tokens (nested ++ after)) (alike' : Alike tokens' (flat ++ after)) :
    (build registry serial tokens).toOption.map (·.sheet) =
      (build registry serial tokens').toOption.map (·.sheet) := by
  have equal : (front ++ [n.block]).foldlM (Outline.Block.effect (Draft.semantics registry))
      (State.start serial) =
        (front ++ n.blocks).foldlM (Outline.Block.effect (Draft.semantics registry))
          (.start serial) := by
    rw [List.foldlM_append, List.foldlM_append]
    refine congrArg _ (funext fun s => ?_)
    rw [n.effect_blocks, List.foldlM_cons]
    exact bind_pure _
  rw [sheet_of_draft nested_written alike, sheet_of_draft flat_written alike', equal]

def anywhere : Span := ⟨none, 1, 1⟩

/-- A block for a class and a trait tag, with a block inside for a condition and another tag. -/
theorem sheet_unnest_both : ∃ (nested flat : List Token) (sheet : Stylesheet),
    Token.scan " A , #b \x7b x : a ; & [ w ] : t \x7b y : b \x7d z : c \x7d" none = .ok nested ∧
      Token.scan (" A , #b \x7b x : a ; \x7d A [ w ] : t , #b [ w ] : t \x7b y : b \x7d " ++
          "A , #b \x7b z : c \x7d") none = .ok flat ∧
      (build .builtins 0 nested).toOption.map (·.sheet) = some sheet ∧
        (build .builtins 0 flat).toOption.map (·.sheet) = some sheet := by
  let token (kind : Token.Kind) : Token := ⟨kind, anywhere, true⟩
  let property (name word : String) : Draft.Property :=
    ⟨name, [], ⟨[token (.ident word)], fun _ => rfl, rfl⟩, by simp⟩
  have declared (name word : String) : (property name word).Written
      [token (.ident name), token (.punct .colon), token (.ident word)] :=
    @Draft.Property.Written.intro _ [token (.ident name)] anywhere true rfl
  let r : Outline.Restriction := ⟨[[token (.ident "w")]], some "t"⟩
  have narrowed : r.Written _ :=
    .intro (.cons _ anywhere anywhere true true .nil) (.colon "t" anywhere anywhere true true)
  let n : Draft.Nesting :=
    ⟨⟨.className "A", ⟨[], none⟩⟩, [⟨.traitTag "b", ⟨[], none⟩⟩], r,
      .declare (property "x" "a") .done, .declare (property "y" "b") .done,
      .declare (property "z" "c") .done, by decide, by simp [Outline.Accepts]⟩
  have heads : Outline.WrittenHeads (n.first :: n.others) _ :=
    .comma anywhere true (.intro (.class "A" anywhere true) (.intro .nil .absent))
      (.last (.intro (.hash "b" anywhere true) (.intro .nil .absent)))
  have narrowed_heads :
      Outline.WrittenHeads ((n.first :: n.others).map (Outline.narrow n.restriction)) _ :=
    .comma anywhere true (.intro (.class "A" anywhere true) narrowed)
      (.last (.intro (.hash "b" anywhere true) narrowed))
  have inside : n.inside.Written Draft.spelling _ := .declare (declared "y" "b") .done (.inl rfl)
  have behind : n.behind.Written Draft.spelling _ := .declare (declared "z" "c") .done (.inl rfl)
  obtain ⟨written, nested_written, nested, scanned, alike⟩ : ∃ written,
      Draft.Written ([] ++ [n.block]) written ∧ ∃ nested,
        Token.scan " A , #b \x7b x : a ; & [ w ] : t \x7b y : b \x7d z : c \x7d" none =
          .ok nested ∧ Alike nested (written ++ []) :=
    ⟨_, .block (.rules anywhere anywhere true true (by decide) heads
        (.declare (declared "x" "a") (.stray anywhere true
          (.nest anywhere anywhere anywhere true true true (by decide) narrowed inside behind))
          (.inr ⟨_, _, _, rfl⟩))) .nil,
      exists_ok_of_any (by decide +kernel)⟩
  obtain ⟨written', flat_written, flat, scanned', alike'⟩ : ∃ written',
      Draft.Written ([] ++ n.blocks) written' ∧ ∃ flat,
        Token.scan (" A , #b \x7b x : a ; \x7d A [ w ] : t , #b [ w ] : t \x7b y : b \x7d " ++
          "A , #b \x7b z : c \x7d") none = .ok flat ∧ Alike flat (written' ++ []) :=
    ⟨_, .block (.rules anywhere anywhere true true (by decide) heads
        (.declare (declared "x" "a") (.stray anywhere true .done) (.inr ⟨_, _, _, rfl⟩)))
      (.block (.rules anywhere anywhere true true (by decide) narrowed_heads inside)
        (.block (.rules anywhere anywhere true true (by decide) heads behind) .nil)),
      exists_ok_of_any (by decide +kernel)⟩
  obtain ⟨s, effect⟩ : ∃ s, n.block.effect (Draft.semantics .builtins) (.start 0) = some s :=
    Option.isSome_iff_exists.1 (by decide +kernel)
  have read : (build .builtins 0 nested).toOption.map (·.sheet) = some s.sheet := by
    rw [sheet_of_draft nested_written alike, List.nil_append, List.foldlM_cons, effect]
    exact congrArg (fun result => result.toOption.map (·.sheet)) (run_nil none s)
  have equal : (build .builtins 0 nested).toOption.map (·.sheet) =
      (build .builtins 0 flat).toOption.map (·.sheet) :=
    sheet_unnest nested_written flat_written alike alike'
  exact ⟨nested, flat, s.sheet, scanned, scanned', read, equal.symm.trans read⟩

end Builder

end ViewStyle
