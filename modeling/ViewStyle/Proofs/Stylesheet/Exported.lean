/-
The variables of a stylesheet as it is used, and what references to them stand for. Both are kept by
every definition, but references are told apart by the spelling of their names, while a stylesheet
has one value for all spellings of a path. A variable has the value of its references as long as the
last definition of its path is spelled like it.
-/

import ViewStyle.Proofs.Stylesheet.NormalKeys
import ViewStyle.Proofs.Stylesheet.Scoping

set_option autoImplicit false

namespace ViewStyle

open Builder (State)
open Text (Span)

/-- The literal of a value that no plugin has read. -/
def Value.literal? (v : Value) : Option Literal :=
  match v.content with
  | .literal value => some value
  | .plugin _ => none

theorem Value.literal?_eq_some {v : Value} {literal : Literal} :
    v.literal? = some literal ↔ v.content = .literal literal := by
  rw [literal?]
  cases v.content <;> simp

/-- Whether a plugin reads a text does not depend on the number it is given. -/
def Registry.Steady (r : Registry) : Prop :=
  ∀ plugin ∈ r, ∀ raw i j compute, plugin.read raw i = .ok compute →
    ∃ compute', plugin.read raw j = .ok compute'

private theorem Registry.steady_builtins : Steady builtins := by
  intro plugin member raw i j compute read
  cases List.mem_singleton.1 member
  exact ⟨compute, read⟩

/-- The value that is read from some tokens, important or not. -/
structure Value.ReadFrom (registry : Registry) (tokens : List Token) (v : Value) : Prop where
  raw : v.raw = Token.render tokens
  literal : v.literal? =
    if (registry.claimant? (Token.render tokens)).isSome then none
    else some (Literal.ofTokens tokens)

private theorem Value.ReadFrom.agree {registry : Registry} {tokens : List Token} {v w : Value}
    (h : v.ReadFrom registry tokens) (h' : w.ReadFrom registry tokens) :
    v.raw = w.raw ∧ v.literal? = w.literal? :=
  ⟨h.raw.trans h'.raw.symm, h.literal.trans h'.literal.symm⟩

private theorem render_respaced (reference : Token) (tokens : List Token) :
    Token.render (Builder.respaced reference tokens) = Token.render tokens := by
  cases tokens <;> rfl

private theorem ofTokens_respaced (reference : Token) (tokens : List Token) :
    Literal.ofTokens (Builder.respaced reference tokens) = Literal.ofTokens tokens := by
  refine Literal.ofTokens_congr ?_ (render_respaced reference tokens)
  cases tokens with
  | nil => exact .nil
  | cons first rest =>
      have others : List.Forall₂ Token.SameKind rest rest :=
        List.forall₂_same.2 fun token _ => .intro token.kind _ _ _ _
      exact .cons (.intro first.kind _ _ _ _) others

private theorem Value.ReadFrom.of_respaced {registry : Registry} {reference : Token}
    {tokens : List Token} {v : Value}
    (h : v.ReadFrom registry (Builder.respaced reference tokens)) : v.ReadFrom registry tokens := by
  obtain ⟨raw, literal⟩ := h
  rw [render_respaced] at raw literal
  rw [ofTokens_respaced] at literal
  exact ⟨raw, literal⟩

def Readable (registry : Registry) (tokens : List Token) : Prop :=
  ∀ plugin, registry.claimant? (Token.render tokens) = some plugin →
    ∃ serial compute, plugin.read (Token.render tokens) serial = .ok compute

section

variable {registry : Registry} {s s' : State} {tokens : List Token} {important : Bool} {v : Value}

theorem readFrom_value (h : s.value registry tokens important = .ok (v, s')) :
    v.ReadFrom registry tokens ∧ Readable registry tokens := by
  unfold State.value at h
  dsimp only at h
  split at h
  · rename_i unclaimed
    cases h
    refine ⟨⟨rfl, ?_⟩, fun plugin claims => ?_⟩
    · rw [unclaimed]
      rfl
    · rw [unclaimed] at claims
      cases claims
  · rename_i plugin claims
    split at h
    · cases h
    · rename_i compute read
      cases h
      refine ⟨⟨rfl, ?_⟩, fun plugin' claims' => ?_⟩
      · rw [claims]
        rfl
      · rw [claims] at claims'
        cases claims'
        exact ⟨_, _, read⟩

private theorem exists_value (steady : registry.Steady) (readable : Readable registry tokens)
    (s : State) (important : Bool) : ∃ v s', s.value registry tokens important = .ok (v, s') := by
  unfold State.value
  dsimp only
  split
  · exact ⟨_, _, rfl⟩
  · rename_i plugin claims
    obtain ⟨serial, compute, read⟩ := readable plugin claims
    obtain ⟨compute', read'⟩ :=
      steady plugin (List.mem_of_find?_eq_some claims) _ serial s.serial compute read
    rw [read']
    exact ⟨_, _, rfl⟩

end

/-- For every path the stylesheet has the value of the last definition of that path, however its
name is spelled; and what the variables stand for can be read. -/
structure Exports (registry : Registry) (s : State) : Prop where
  values : ∀ key : KeyPath, Option.Rel (fun v d => v.ReadFrom registry d.2)
    (s.sheet.globals.values.find? key.text)
    (s.definitions.find? fun d => KeyPath.ofText d.1 = key)
  readable : ∀ d ∈ s.definitions, Readable registry d.2

namespace Exports

variable {registry : Registry} {s : State}

private theorem start (serial : Nat) : Exports registry (.start serial) :=
  ⟨fun _ => .none, fun _ member => nomatch member⟩

private theorem exists_valueOf (h : Exports registry s) {name other : String} {meaning : List Token}
    (last : s.definitions.find? (fun d => KeyPath.ofText d.1 = KeyPath.ofText name) =
      some (other, meaning)) :
    ∃ v, s.sheet.valueOf? name = some v ∧ v.ReadFrom registry meaning := by
  have related := h.values (KeyPath.ofText name)
  rw [last] at related
  unfold Stylesheet.valueOf? Rule.get?
  generalize s.sheet.globals.values.find? (KeyPath.ofText name).text = v at related ⊢
  cases related with
  | some read => exact ⟨_, rfl, read⟩

private theorem define (h : Exports registry s) (name : String) {tokens : List Token} {v : Value}
    (read : v.ReadFrom registry tokens) (readable : Readable registry tokens) :
    Exports registry (s.define name tokens v) := by
  refine ⟨fun key => ?_, List.forall_mem_cons.2 ⟨readable, h.readable⟩⟩
  have values : (s.define name tokens v).sheet.globals.values.find? key.text =
      if key.text = (KeyPath.ofText name).text then some v
      else s.sheet.globals.values.find? key.text :=
    OrderedMap.find?_insert s.sheet.globals.values (KeyPath.ofText name).text key.text v
  have definitions : (s.define name tokens v).definitions = (name, tokens) :: s.definitions := rfl
  rw [values, definitions, List.find?_cons]
  by_cases same : KeyPath.ofText name = key
  · subst same
    simpa using Option.Rel.some read
  · have other : ¬key.text = (KeyPath.ofText name).text := fun equal =>
      same (congrArg KeyPath.mk equal.symm)
    simpa [same, other] using h.values key

private theorem perform {stage stage' : Draft.Stage} {c : Draft.Clause}
    (h : Exports registry stage.state) (performs : c.perform registry stage = some stage') :
    Exports registry stage'.state := by
  cases c with
  | define name tokens =>
      obtain ⟨⟨v, s'⟩, found, rfl⟩ := Option.map_eq_some_iff.1 performs
      have value := eq_ok_of_toOption found
      obtain ⟨read, readable⟩ := readFrom_value value
      have sheet : s'.sheet = stage.state.sheet := Builder.sheet_value value
      have definitions : s'.definitions = stage.state.definitions :=
        (Draft.keeps_value value).definitions
      have kept : Exports registry s' := by
        constructor
        · rw [sheet, definitions]
          exact h.values
        · rw [definitions]
          exact h.readable
      exact kept.define name read readable
  | start heads =>
      obtain ⟨selectors, -, rfl⟩ := Option.map_eq_some_iff.1 performs
      exact ⟨h.values, h.readable⟩
  | nest restriction =>
      obtain ⟨selectors, -, performs⟩ := Option.bind_eq_some_iff.1 performs
      obtain ⟨nested, -, rfl⟩ := Option.map_eq_some_iff.1 performs
      exact ⟨h.values, h.readable⟩
  | leave =>
      cases performs
      exact h
  | declare key tokens important =>
      obtain ⟨selectors, -, performs⟩ := Option.bind_eq_some_iff.1 performs
      obtain ⟨path, -, performs⟩ := Option.bind_eq_some_iff.1 performs
      obtain ⟨⟨v, s'⟩, found, rfl⟩ := Option.map_eq_some_iff.1 performs
      have value := eq_ok_of_toOption found
      have globals : (s'.declare selectors path v).sheet.globals = stage.state.sheet.globals :=
        congrArg (·.globals) (Builder.sheet_value value)
      have noted : (s'.declare selectors path v).definitions = stage.state.definitions :=
        (Draft.keeps_value value).definitions
      constructor
      · rw [globals, noted]
        exact h.values
      · rw [noted]
        exact h.readable

private theorem run {clauses : List Draft.Clause} {stage stage' : Draft.Stage}
    (h : Exports registry stage.state)
    (performs : clauses.foldlM (Draft.Clause.perform registry) stage = some stage') :
    Exports registry stage'.state := by
  induction clauses generalizing stage with
  | nil =>
      cases performs
      exact h
  | cons c rest ih =>
      rw [List.foldlM_cons] at performs
      obtain ⟨next, here, there⟩ := Option.bind_eq_some_iff.1 performs
      exact ih (h.perform here) there

end Exports

namespace Draft

/-- The selector `.Z`. -/
def shownFor : Selector := ⟨.className "Z", none, none⟩

/-- The block `.Z { x: @name; }`. -/
def showing (name : String) (span : Span) (spaced : Bool) : Block :=
  .rules ⟨.className "Z", ⟨[], none⟩⟩ []
    (.declare ⟨"x", [], ⟨[⟨.atWord name, span, spaced⟩], fun _ => rfl, rfl⟩, List.not_mem_nil⟩
      .done)

private theorem evaluate_reference {registry : Registry} (steady : registry.Steady) {s : State}
    {name : String} {meaning : List Token} (found : s.definitions.lookup name = some meaning)
    (readable : Readable registry meaning) (span : Span) (spaced : Bool) :
    ∃ v s', s.evaluate registry [⟨.atWord name, span, spaced⟩] false =
        some (Builder.respaced ⟨.atWord name, span, spaced⟩ meaning, v, s') ∧
      v.ReadFrom registry meaning ∧ s'.sheet = s.sheet := by
  let reference : Token := ⟨.atWord name, span, spaced⟩
  have readable' : Readable registry (Builder.respaced reference meaning) := by
    unfold Readable at readable ⊢
    rwa [render_respaced]
  obtain ⟨v, s', value⟩ := exists_value steady readable' s false
  have read : v.ReadFrom registry (Builder.respaced reference meaning) := (readFrom_value value).1
  have expanded : Outline.expand s.definitions [reference] =
      some (Builder.respaced reference meaning) := by
    rw [Outline.expand_cons, Outline.replacement]
    dsimp only [reference]
    rw [found]
    simp [Outline.expand]
  refine ⟨v, s', ?_, read.of_respaced, Builder.sheet_value value⟩
  rw [State.evaluate, Builder.toOption_substitute, expanded]
  dsimp only [List.isEmpty_cons, Option.bind_some]
  rw [value]
  rfl

private theorem effect_showing {registry : Registry} (steady : registry.Steady) {s : State}
    {name : String} {meaning : List Token} (found : s.definitions.lookup name = some meaning)
    (readable : Readable registry meaning) (span : Span) (spaced : Bool) :
    ∃ s' v, (showing name span spaced).effect (semantics registry) s = some s' ∧
      s'.sheet.rules.setting? shownFor "x" = some ⟨v, s.sheet.rules.count + 1⟩ ∧
      v.ReadFrom registry meaning ∧ s'.sheet.globals = s.sheet.globals := by
  let reference : Token := ⟨.atWord name, span, spaced⟩
  obtain ⟨v, s₁, evaluates, read, sheet⟩ :=
    evaluate_reference steady (s := s.introduceAll [shownFor]) found readable span spaced
  refine ⟨s₁.declare [shownFor] "x" v, v, ?_, ?_, read, congrArg (·.globals) sheet⟩
  · have heads : ([⟨.className "Z", ⟨[], none⟩⟩] : List Outline.Head).mapM
        (Outline.Head.selector s.definitions) = some [shownFor] := rfl
    have path : Property.path? ⟨"x", [], ⟨[reference], fun _ => rfl, rfl⟩, List.not_mem_nil⟩ =
        some "x" := by
      change (spelled [] [.ident "x"]).map String.ofList = some "x"
      decide +kernel
    have unmarked : Builder.takeImportance [reference] = ([reference], false) := rfl
    rw [showing, effect_rules, heads, Option.bind_some, effect_declare, Property.effect, path,
      Option.bind_some, unmarked]
    dsimp only
    rw [evaluates]
    rfl
  · have count : s₁.sheet.rules.count = s.sheet.rules.count := by
      rw [sheet]
      exact Rules.count_foldl_introduce _ _
    have key : (KeyPath.ofText "x").text = "x" := by decide +kernel
    rw [State.declare, Rules.nextOrder]
    dsimp only
    rw [Rules.setting?_foldl_declare, key, count]
    exact if_pos ⟨by rw [List.any_cons, Selector.same_self]; rfl, rfl⟩

end Draft

private theorem lookup_of_find?_path {definitions : Outline.Definitions} {name : String}
    {meaning : List Token}
    (last : definitions.find? (fun d => KeyPath.ofText d.1 = KeyPath.ofText name) =
      some (name, meaning)) : definitions.lookup name = some meaning := by
  obtain ⟨-, newer, older, noted, not_newer⟩ := List.find?_eq_some_iff_append.1 last
  refine List.lookup_eq_some_iff.2 ⟨newer, older, noted, fun d before => ?_⟩
  have different := not_newer d before
  simp only [Bool.not_eq_true', decide_eq_false_iff_not] at different
  exact bne_iff_ne.2 fun equal => different (congrArg KeyPath.ofText equal.symm)

namespace Builder

section

variable {registry : Registry} {serial : Nat} {tokens : List Token} {s : State}
  {blocks : List Draft.Block}

theorem exports_of_build (accepted : build registry serial tokens = .ok s) :
    Exports registry s := by
  obtain ⟨blocks, written⟩ := exists_written_of_build accepted
  obtain ⟨resolved, -, performs⟩ := exists_performed_of_build accepted written
  exact (Exports.start serial).run performs

private theorem exists_noted (accepted : build registry serial tokens = .ok s)
    (written : Draft.Written blocks tokens) {definitions : List (String × Draft.Phrase)}
    (block : .globals definitions ∈ blocks) {name : String} {value : Draft.Phrase}
    (defined : (name, value) ∈ definitions) :
    ∃ above last meaning, Draft.Latest (Draft.clauses blocks) name above last ∧
      Draft.Means above last meaning ∧ s.definitions.lookup name = some meaning := by
  have effect := (build_eq_ok_iff_effect written).1 accepted
  obtain ⟨⟨resolved, resolves⟩, stand⟩ := Draft.stand_of_clauses Draft.stand_nil effect
  rw [List.nil_append] at stand
  have listed : .define name value.tokens ∈ Draft.clauses blocks :=
    List.mem_flatMap.2 ⟨_, block, List.mem_map.2 ⟨_, defined, rfl⟩⟩
  obtain ⟨above, last, latest⟩ := Draft.exists_latest listed
  obtain ⟨meaning, means⟩ := resolves.exists_means latest
  exact ⟨above, last, meaning, latest, means, (stand name meaning).2 ⟨above, last, latest, means⟩⟩

/-- A reference behind a stylesheet and the value of the variable in the stylesheet. The reference
has what the last definition of its name means; the stylesheet has what the last definition of its
path means, which may be one of another name. -/
theorem exported_of_showing (steady : registry.Steady)
    (accepted : build registry serial tokens = .ok s) (written : Draft.Written blocks tokens)
    {definitions : List (String × Draft.Phrase)} (block : .globals definitions ∈ blocks)
    {name : String} {value : Draft.Phrase} (defined : (name, value) ∈ definitions) {span : Span}
    {spaced : Bool} {use : List Token}
    (shown : Draft.Written [Draft.showing name span spaced] use) :
    ∃ s' used exported above last meaning other others_meaning,
      build registry serial (tokens ++ use) = .ok s' ∧
        s'.sheet.rules.setting? Draft.shownFor "x" =
          some ⟨used, s.sheet.rules.count + 1⟩ ∧
        s.sheet.valueOf? name = some exported ∧ s'.sheet.valueOf? name = some exported ∧
        Draft.Latest (Draft.clauses blocks) name above last ∧ Draft.Means above last meaning ∧
        used.ReadFrom registry meaning ∧
        s.definitions.find? (fun d => KeyPath.ofText d.1 = KeyPath.ofText name) =
          some (other, others_meaning) ∧
        exported.ReadFrom registry others_meaning ∧
        (other = name → used.raw = exported.raw ∧ used.literal? = exported.literal?) := by
  have exports : Exports registry s := exports_of_build accepted
  obtain ⟨above, last, meaning, latest, means, found⟩ :=
    exists_noted accepted written block defined
  have member : (name, meaning) ∈ s.definitions := by
    obtain ⟨newer, older, noted, -⟩ := List.lookup_eq_some_iff.1 found
    rw [noted]
    exact List.mem_append_right _ List.mem_cons_self
  obtain ⟨s', used, shows, setting, used_read, kept⟩ :=
    Draft.effect_showing steady found (exports.readable _ member) span spaced
  have again : build registry serial (tokens ++ use) = .ok s' := by
    have effect := (build_eq_ok_iff_effect written).1 accepted
    rw [build_eq_ok_iff_effect (written.append shown), List.foldlM_append, effect]
    exact (Option.bind_some _ _).trans ((congrArg (· >>= pure) shows).trans rfl)
  -- The last definition of the path, and the value that the stylesheet has for it.
  obtain ⟨⟨other, others_meaning⟩, last_spelled⟩ :
      ∃ d, s.definitions.find? (fun d => KeyPath.ofText d.1 = KeyPath.ofText name) = some d :=
    Option.isSome_iff_exists.1 (List.find?_isSome.2 ⟨_, member, decide_eq_true rfl⟩)
  obtain ⟨exported, value_eq, exported_read⟩ := exports.exists_valueOf last_spelled
  have value_eq' : s'.sheet.valueOf? name = some exported := by
    rw [Stylesheet.valueOf?, kept]
    exact value_eq
  refine ⟨s', used, exported, above, last, meaning, other, others_meaning, again, setting, value_eq,
    value_eq', latest, means, used_read, last_spelled, exported_read, ?_⟩
  rintro rfl
  cases (lookup_of_find?_path last_spelled).symm.trans found
  exact used_read.agree exported_read

end

/-- A variable that is defined twice, the second time by a reference to itself. -/
theorem exported_of_showing_twice : ∃ (tokens use : List Token) (s s' : State)
    (used exported : Value),
    Registry.Steady .builtins ∧
      Token.scan "@global \x7b @a-b: u; @a-b: w @a-b \x7d" none = .ok tokens ∧
      Token.scan ".Z \x7b x: @a-b; \x7d" none = .ok use ∧
      build .builtins 0 tokens = .ok s ∧ build .builtins 0 (tokens ++ use) = .ok s' ∧
      s'.sheet.rules.setting? Draft.shownFor "x" = some ⟨used, s.sheet.rules.count + 1⟩ ∧
      s.sheet.valueOf? "a-b" = some exported ∧ used.raw = exported.raw ∧
      used.literal? = exported.literal? := by
  let place (column : Nat) : Span := ⟨none, ⟨1, column⟩⟩
  let first : Draft.Phrase := ⟨[⟨.ident "u", place 17, true⟩], fun _ => rfl, rfl⟩
  let second : Draft.Phrase :=
    ⟨[⟨.ident "w", place 26, true⟩, ⟨.atWord "a-b", place 28, true⟩], fun _ => rfl, fun _ => rfl,
      rfl⟩
  obtain ⟨tokens, scanned, written⟩ : ∃ tokens,
      Token.scan "@global \x7b @a-b: u; @a-b: w @a-b \x7d" none = .ok tokens ∧
        Draft.Written [.globals [("a-b", first), ("a-b", second)]] tokens :=
    ⟨_, by decide +kernel, .block
      (@Outline.Block.Written.globals _ _ _ "global" _ _ (place 1) (place 9) (place 33) false true
        true (by decide +kernel)
        (.define "a-b" first ⟨.punct .colon, place 15, false⟩ (place 11) true (.inr rfl)
          (.stray (place 18) false
            (.define "a-b" second ⟨.punct .colon, place 24, false⟩ (place 20) true (.inr rfl) .nil
              (.inl rfl)))
          (.inr ⟨_, _, _, rfl⟩))) .nil⟩
  obtain ⟨use, use_scanned, shown⟩ : ∃ use, Token.scan ".Z \x7b x: @a-b; \x7d" none = .ok use ∧
      Draft.Written [Draft.showing "a-b" (place 9) true] use :=
    ⟨_, by decide +kernel, .block
      (.rules (place 4) (place 15) true true (by decide)
        (.last (.intro (.dot "Z" (place 1) (place 2) false) (.intro .nil .absent)))
        (.declare
          (@Draft.Property.Written.intro _ [⟨.ident "x", place 6, true⟩] (place 7) false rfl)
          (.stray (place 13) false .done) (.inr ⟨_, _, _, rfl⟩))) .nil⟩
  obtain ⟨s, effect, names⟩ : ∃ s, [Outline.Block.globals [("a-b", first), ("a-b", second)]].foldlM
      (Outline.Block.effect (Draft.semantics .builtins)) (.start 0) = some s ∧
        s.definitions.map (·.1) = ["a-b", "a-b"] :=
    Option.map_eq_some_iff.1 (by decide +kernel)
  have accepted : build .builtins 0 tokens = .ok s :=
    (build_eq_ok_iff_effect written).2 effect
  obtain ⟨s', used, exported, _, _, _, other, _, again, setting, value_eq, _, _, _, _, spelled, _,
    agree⟩ := exported_of_showing Registry.steady_builtins accepted written List.mem_cons_self
      List.mem_cons_self shown
  have other_mem : other ∈ s.definitions.map (·.1) :=
    List.mem_map.2 ⟨_, List.mem_of_find?_eq_some spelled, rfl⟩
  rw [names] at other_mem
  obtain ⟨raw, literal⟩ := agree (by simpa using other_mem)
  exact ⟨tokens, use, s, s', used, exported, Registry.steady_builtins, scanned, use_scanned,
    accepted, again, setting, value_eq, raw, literal⟩

/-- The stylesheet has one value for two variables whose names spell one path, and a reference to
the first one does not show it. -/
theorem exported_other_spelling : ∃ (tokens use : List Token) (s s' : State)
    (used : Declared) (exported : Value),
    Token.scan "@global \x7b @a-b: u; @aB: v \x7d" none = .ok tokens ∧
      Token.scan ".Z \x7b x: @a-b; \x7d" none = .ok use ∧
      build .builtins 0 tokens = .ok s ∧ build .builtins 0 (tokens ++ use) = .ok s' ∧
      s'.sheet.rules.setting? Draft.shownFor "x" = some used ∧
      s.sheet.valueOf? "a-b" = some exported ∧ used.value.raw = "u" ∧ exported.raw = "v" := by
  have computed : ((Token.scan "@global \x7b @a-b: u; @aB: v \x7d" none).toOption.bind fun tokens =>
      (Token.scan ".Z \x7b x: @a-b; \x7d" none).toOption.bind fun use =>
        (build .builtins 0 tokens).toOption.bind fun s =>
          (build .builtins 0 (tokens ++ use)).toOption.bind fun s' =>
            (s'.sheet.rules.setting? Draft.shownFor "x").bind fun used =>
              (s.sheet.valueOf? "a-b").map fun exported => (used.value.raw, exported.raw)) =
      some ("u", "v") := by
    decide +kernel
  obtain ⟨tokens, scanned, h⟩ := Option.bind_eq_some_iff.1 computed
  obtain ⟨use, use_scanned, h⟩ := Option.bind_eq_some_iff.1 h
  obtain ⟨s, accepted, h⟩ := Option.bind_eq_some_iff.1 h
  obtain ⟨s', again, h⟩ := Option.bind_eq_some_iff.1 h
  obtain ⟨used, setting, h⟩ := Option.bind_eq_some_iff.1 h
  obtain ⟨exported, value_eq, raws⟩ := Option.map_eq_some_iff.1 h
  obtain ⟨used_raw, exported_raw⟩ := Prod.ext_iff.1 raws
  exact ⟨tokens, use, s, s', used, exported, eq_ok_of_toOption scanned,
    eq_ok_of_toOption use_scanned, eq_ok_of_toOption accepted, eq_ok_of_toOption again, setting,
    value_eq, used_raw, exported_raw⟩

end Builder

end ViewStyle
