/-
What variables mean, told from the text alone. A stylesheet is the list of what it says from top to
bottom, and a reference stands for what the last definition above it means at its own place. A
stylesheet is read if and only if all its references can be replaced in this way and the rest, which
mentions no variable, can be read by a reader that looks no variable up.
-/

import ViewStyle.Proofs.Stylesheet.Recognition
import ViewStyle.Proofs.Stylesheet.Shorthand

set_option autoImplicit false

namespace ViewStyle

open Builder (State)

namespace Draft

open Outline (Definitions Head Restriction)

/-- One thing that a stylesheet says. The mark of an important declaration is not part of its
value. -/
inductive Clause
  | define (name : String) (value : List Token)
  | start (heads : List Head)
  | nest (restriction : Restriction)
  | leave
  | declare (key : List Token.Kind) (value : List Token) (important : Bool)

def Property.clause (p : Property) : Clause :=
  let (value, important) := Builder.takeImportance p.value.tokens
  .declare p.key value important

def Body.clauses : Body → List Clause
  | .done => []
  | .declare property next => property.clause :: Body.clauses next
  | .nest restriction inside next =>
      .nest restriction :: (Body.clauses inside ++ .leave :: Body.clauses next)

def Block.clauses : Block → List Clause
  | .globals definitions => definitions.map fun (name, value) => .define name value.tokens
  | .rules first others body => .start (first :: others) :: (Body.clauses body ++ [.leave])

/-- What the blocks of a stylesheet say from top to bottom. -/
def clauses (blocks : List Block) : List Clause := blocks.flatMap Block.clauses

/-- The tokens of a clause in which variables may stand: values and conditions. -/
def Clause.phrases : Clause → List (List Token)
  | .define _ value => [value]
  | .start heads => heads.flatMap (·.restriction.conditions)
  | .nest restriction => restriction.conditions
  | .leave => []
  | .declare _ value _ => [value]

def Clause.Mentions (c : Clause) (name : String) : Prop :=
  ∃ phrase ∈ c.phrases, ∃ token ∈ phrase, token.kind = .atWord name

/-- The last definition of a variable in some clauses, and the clauses above it. -/
def Latest (clauses : List Clause) (name : String) (above : List Clause) (value : List Token) :
    Prop :=
  ∃ below, clauses = above ++ .define name value :: below ∧ ∀ other, .define name other ∉ below

/-- What tokens stand for below some clauses. A definition means what it does at its own place, so
that neither it nor what comes after it is among the clauses there. -/
inductive Means : List Clause → List Token → List Token → Prop
  | nil {before : List Clause} : Means before [] []
  | plain {before : List Clause} {token : Token} {rest out : List Token} :
      (∀ name, token.kind ≠ .atWord name) → Means before rest out →
        Means before (token :: rest) (token :: out)
  | reference {before above : List Clause} {name : String} {value meaning : List Token}
      {token : Token} {rest out : List Token} :
      token.kind = .atWord name → Latest before name above value → Means above value meaning →
        Means before rest out →
          Means before (token :: rest) (Builder.respaced token meaning ++ out)

/-- The same conditions with all references replaced, and the same trait tag. -/
structure Restriction.Means (before : List Clause) (r r' : Restriction) : Prop where
  conditions : List.Forall₂ (Draft.Means before) r.conditions r'.conditions
  qualifier : r'.qualifier = r.qualifier

structure Head.Means (before : List Clause) (h h' : Head) : Prop where
  target : h'.target = h.target
  restriction : Restriction.Means before h.restriction h'.restriction

/-- A clause with all references replaced. A value has a token at least. -/
inductive Resolves (before : List Clause) : Clause → Clause → Prop
  | define {name : String} {value meaning : List Token} :
      value ≠ [] → Means before value meaning →
        Resolves before (.define name value) (.define name meaning)
  | start {heads heads' : List Head} :
      List.Forall₂ (Head.Means before) heads heads' → Resolves before (.start heads) (.start heads')
  | nest {r r' : Restriction} :
      Restriction.Means before r r' → Resolves before (.nest r) (.nest r')
  | leave : Resolves before .leave .leave
  | declare {key : List Token.Kind} {value meaning : List Token} {important : Bool} :
      value ≠ [] → Means before value meaning →
        Resolves before (.declare key value important) (.declare key meaning important)

/-- Every clause is resolved below the clauses in front of it. -/
inductive Scoped : List Clause → List Clause → List Clause → Prop
  | nil {before : List Clause} : Scoped before [] []
  | cons {before rest rest' : List Clause} {c c' : Clause} :
      Resolves before c c' → Scoped (before ++ [c]) rest rest' →
        Scoped before (c :: rest) (c' :: rest')

/-- What was read, and the selectors of the open blocks from the inside out. -/
structure Stage where
  state : State
  scopes : List (List Selector)

def Stage.start (serial : Nat) : Stage := ⟨.start serial, []⟩

def Stage.enter (stage : Stage) (selectors : List Selector) : Stage :=
  ⟨stage.state.introduceAll selectors, selectors :: stage.scopes⟩

/-- What a clause does where references are replaced. Definitions are noted, but nothing looks them
up: conditions are read without any. -/
def Clause.perform (registry : Registry) (stage : Stage) : Clause → Option Stage
  | .define name value =>
      (stage.state.value registry value false).toOption.map fun (read, state) =>
        { stage with state := state.define name value read }
  | .start heads => (heads.mapM (Head.selector [])).map stage.enter
  | .nest restriction =>
      stage.scopes.head?.bind fun selectors => (restriction.refine [] selectors).map stage.enter
  | .leave => some { stage with scopes := stage.scopes.tail }
  | .declare key value important =>
      stage.scopes.head?.bind fun selectors =>
        ((spelled [] key).map String.ofList).bind fun path =>
          (stage.state.value registry value important).toOption.map fun (read, state) =>
            { stage with state := state.declare selectors path read }

private theorem latest_concat_define {before above : List Clause} {name name' : String}
    {value value' : List Token} :
    Latest (before ++ [.define name value]) name' above value' ↔
      (name' = name ∧ above = before ∧ value' = value) ∨
        (name' ≠ name ∧ Latest before name' above value') := by
  constructor
  · rintro ⟨below, equal, none_below⟩
    obtain rfl | ⟨below, last, rfl⟩ := below.eq_nil_or_concat'
    · obtain ⟨rfl, same⟩ := List.append_inj' equal rfl
      cases same
      exact .inl ⟨rfl, rfl, rfl⟩
    · rw [← List.cons_append, ← List.append_assoc] at equal
      obtain ⟨rfl, same⟩ := List.append_inj' equal rfl
      cases same
      refine .inr ⟨?_, below, rfl, fun other member =>
        none_below other (List.mem_append_left _ member)⟩
      rintro rfl
      exact none_below value (List.mem_append_right _ List.mem_cons_self)
  · rintro (⟨rfl, rfl, rfl⟩ | ⟨other_name, below, rfl, none_below⟩)
    · exact ⟨[], rfl, fun _ => List.not_mem_nil⟩
    · refine ⟨below ++ [.define name value], by simp, fun other member => ?_⟩
      rcases List.mem_append.1 member with member | member
      · exact none_below other member
      · cases List.mem_singleton.1 member
        exact other_name rfl

private theorem latest_concat_other {before above : List Clause} {c : Clause}
    (other : ∀ name value, c ≠ .define name value) {name : String} {value : List Token} :
    Latest (before ++ [c]) name above value ↔ Latest before name above value := by
  constructor
  · rintro ⟨below, equal, none_below⟩
    obtain rfl | ⟨below, last, rfl⟩ := below.eq_nil_or_concat'
    · obtain ⟨-, same⟩ := List.append_inj' equal rfl
      cases same
      exact absurd rfl (other name value)
    · rw [← List.cons_append, ← List.append_assoc] at equal
      obtain ⟨rfl, -⟩ := List.append_inj' equal rfl
      exact ⟨below, rfl, fun value member => none_below value (List.mem_append_left _ member)⟩
  · rintro ⟨below, rfl, none_below⟩
    refine ⟨below ++ [c], by simp, fun value member => ?_⟩
    rcases List.mem_append.1 member with member | member
    · exact none_below value member
    · exact other name value (List.mem_singleton.1 member).symm

private theorem Latest.mem {clauses above : List Clause} {name : String} {value : List Token}
    (h : Latest clauses name above value) : .define name value ∈ clauses := by
  obtain ⟨below, rfl, -⟩ := h
  exact List.mem_append_right _ List.mem_cons_self

theorem exists_latest {clauses : List Clause} {name : String} {value : List Token}
    (h : .define name value ∈ clauses) : ∃ above last, Latest clauses name above last := by
  induction clauses using List.reverseRecOn with
  | nil => cases h
  | append_singleton clauses c ih =>
      by_cases final : ∃ value, c = .define name value
      · obtain ⟨value, rfl⟩ := final
        exact ⟨clauses, value, [], rfl, fun _ => List.not_mem_nil⟩
      · have member : .define name value ∈ clauses := by
          rcases List.mem_append.1 h with member | member
          · exact member
          · exact absurd ⟨value, (List.mem_singleton.1 member).symm⟩ final
        obtain ⟨above, last, below, rfl, none_below⟩ := ih member
        refine ⟨above, last, below ++ [c], by simp, fun other member => ?_⟩
        rcases List.mem_append.1 member with member | member
        · exact none_below other member
        · exact final ⟨other, (List.mem_singleton.1 member).symm⟩

private theorem Means.no_reference {before : List Clause} {tokens out : List Token}
    (h : Means before tokens out) : ∀ token ∈ out, ∀ name, token.kind ≠ .atWord name := by
  induction h with
  | nil => simp
  | plain not_reference _ ih => exact List.forall_mem_cons.2 ⟨not_reference, ih⟩
  | @reference _ _ _ _ meaning token _ _ _ _ _ _ ih_meaning ih =>
      refine List.forall_mem_append.2 ⟨?_, ih⟩
      cases meaning with
      | nil => simp [Builder.respaced]
      | cons first others => exact List.forall_mem_cons.2 (List.forall_mem_cons.1 ih_meaning)

private theorem Means.exists_define {before : List Clause} {tokens out : List Token}
    (h : Means before tokens out) {token : Token} (member : token ∈ tokens) {name : String}
    (reference : token.kind = .atWord name) : ∃ value, .define name value ∈ before := by
  induction h with
  | nil => cases member
  | plain not_reference _ ih =>
      rcases List.mem_cons.1 member with rfl | member
      · exact absurd reference (not_reference name)
      · exact ih member
  | reference here latest _ _ _ ih =>
      rcases List.mem_cons.1 member with rfl | member
      · cases here.symm.trans reference
        exact ⟨_, latest.mem⟩
      · exact ih member

/-- The variables of the reader are those of the clauses that it has passed. -/
def Stand (definitions : Definitions) (before : List Clause) : Prop :=
  ∀ name meaning, definitions.lookup name = some meaning ↔
    ∃ above value, Latest before name above value ∧ Means above value meaning

theorem stand_nil : Stand [] [] := by
  intro name meaning
  constructor
  · intro found
    cases found
  · rintro ⟨above, value, latest, -⟩
    cases latest.mem

private theorem expand_eq_some_iff {definitions : Definitions} {before : List Clause}
    (stand : Stand definitions before) {tokens out : List Token} :
    Outline.expand definitions tokens = some out ↔ Means before tokens out := by
  induction tokens generalizing out with
  | nil =>
      constructor
      · rintro ⟨⟩
        exact .nil
      · rintro ⟨⟩
        rfl
  | cons token rest ih =>
      rw [Outline.expand_cons]
      constructor
      · intro h
        obtain ⟨first, replaced, h⟩ := Option.bind_eq_some_iff.1 h
        obtain ⟨others, rest_eq, rfl⟩ := Option.map_eq_some_iff.1 h
        unfold Outline.replacement at replaced
        split at replaced
        · rename_i name kind
          obtain ⟨meaning, found, rfl⟩ := Option.map_eq_some_iff.1 replaced
          obtain ⟨above, value, latest, means⟩ := (stand name meaning).1 found
          exact .reference kind latest means (ih.1 rest_eq)
        · rename_i not_reference
          cases replaced
          exact .plain not_reference (ih.1 rest_eq)
      · intro h
        cases h with
        | plain not_reference means =>
            have itself : Outline.replacement definitions token = some [token] := by
              unfold Outline.replacement
              split
              · rename_i name kind
                exact absurd kind (not_reference name)
              · rfl
            rw [itself, ih.2 means]
            rfl
        | @reference _ above name value meaning _ _ out kind latest meant means =>
            have found := (stand name meaning).2 ⟨above, value, latest, meant⟩
            rw [Outline.replacement, kind, ih.2 means]
            dsimp only
            rw [found]
            rfl

private theorem expand_of_no_reference {tokens : List Token}
    (plain : ∀ token ∈ tokens, ∀ name, token.kind ≠ .atWord name) :
    Outline.expand [] tokens = some tokens := by
  induction tokens with
  | nil => rfl
  | cons token rest ih =>
      obtain ⟨here, there⟩ := List.forall_mem_cons.1 plain
      exact (expand_eq_some_iff stand_nil).2 (.plain here ((expand_eq_some_iff stand_nil).1
        (ih there)))

private theorem Stand.define {definitions : Definitions} {before : List Clause}
    (stand : Stand definitions before) {name : String} {value meaning : List Token}
    (means : Means before value meaning) :
    Stand ((name, meaning) :: definitions) (before ++ [.define name value]) := by
  intro name' meaning'
  rw [OrderedMap.lookup_cons_eq_ite]
  simp only [latest_concat_define]
  split
  · rename_i same
    constructor
    · rintro ⟨⟩
      exact ⟨before, value, .inl ⟨same, rfl, rfl⟩, means⟩
    · rintro ⟨above, value', ⟨-, rfl, rfl⟩ | ⟨other, -⟩, means'⟩
      · have both := (expand_eq_some_iff stand).2 means
        rw [(expand_eq_some_iff stand).2 means'] at both
        exact both.symm
      · exact absurd same other
  · rename_i other
    rw [stand]
    constructor
    · rintro ⟨above, value', latest, means'⟩
      exact ⟨above, value', .inr ⟨other, latest⟩, means'⟩
    · rintro ⟨above, value', ⟨same, -⟩ | ⟨-, latest⟩, means'⟩
      · exact absurd same other
      · exact ⟨above, value', latest, means'⟩

private theorem Stand.other {definitions : Definitions} {before : List Clause}
    (stand : Stand definitions before) {c : Clause} (other : ∀ name value, c ≠ .define name value) :
    Stand definitions (before ++ [c]) := by
  intro name meaning
  simp only [latest_concat_other other]
  exact stand name meaning

private theorem Scoped.append {before front front' rest rest' : List Clause}
    (h : Scoped before front front') (h' : Scoped (before ++ front) rest rest') :
    Scoped before (front ++ rest) (front' ++ rest') := by
  induction h with
  | nil => rwa [List.append_nil] at h'
  | cons resolves _ ih =>
      rw [List.append_cons] at h'
      exact .cons resolves (ih h')

private theorem Scoped.of_append {before front rest resolved : List Clause}
    (h : Scoped before (front ++ rest) resolved) :
    ∃ front' rest', resolved = front' ++ rest' ∧ Scoped before front front' ∧
      Scoped (before ++ front) rest rest' := by
  induction front generalizing before resolved with
  | nil => exact ⟨[], resolved, rfl, .nil, by rwa [List.append_nil]⟩
  | cons c front ih =>
      cases h with
      | cons resolves later =>
          obtain ⟨front', rest', rfl, here, there⟩ := ih later
          exact ⟨_ :: front', rest', rfl, .cons resolves here, by rwa [List.append_cons]⟩

section

variable {registry : Registry} {definitions : Definitions} {before : List Clause}

private theorem condition_of_means (stand : Stand definitions before) {tokens out : List Token}
    (means : Means before tokens out) :
    Outline.condition definitions tokens = Outline.condition [] out := by
  rw [Outline.condition, (expand_eq_some_iff stand).2 means, Outline.condition,
    expand_of_no_reference means.no_reference]

private theorem Restriction.Means.condition_eq (stand : Stand definitions before)
    {r r' : Restriction} (means : Restriction.Means before r r') :
    r.condition definitions = r'.condition [] := by
  unfold Outline.Restriction.condition
  rw [mapM_eq_of_forall₂ (means.conditions.imp fun _ _ => condition_of_means stand)]

private theorem Restriction.Means.refine_eq (stand : Stand definitions before) {r r' : Restriction}
    (means : Restriction.Means before r r') (selectors : List Selector) :
    r.refine definitions selectors = r'.refine [] selectors := by
  unfold Outline.Restriction.refine
  rw [means.condition_eq stand, means.qualifier]

private theorem selectors_of_means (stand : Stand definitions before) {heads heads' : List Head}
    (means : List.Forall₂ (Head.Means before) heads heads') :
    heads.mapM (Head.selector definitions) = heads'.mapM (Head.selector []) := by
  refine mapM_eq_of_forall₂ (means.imp fun h h' means => ?_)
  rw [Head.selector, means.restriction.condition_eq stand, Head.selector, means.target,
    means.restriction.qualifier]

private theorem exists_means (stand : Stand definitions before) {tokens : List Token}
    {c : Condition} (h : Outline.condition definitions tokens = some c) :
    ∃ out, Means before tokens out := by
  obtain ⟨out, expanded, -⟩ := Option.bind_eq_some_iff.1 h
  exact ⟨out, (expand_eq_some_iff stand).1 expanded⟩

private theorem exists_restriction_means (stand : Stand definitions before) {r : Restriction}
    {condition : Option Condition} (h : r.condition definitions = some condition) :
    ∃ r', Restriction.Means before r r' := by
  obtain ⟨conditions, found, -⟩ := Option.map_eq_some_iff.1 h
  obtain ⟨outs, means⟩ := exists_forall₂_of_mapM (fun _ _ => exists_means stand) found
  exact ⟨⟨outs, r.qualifier⟩, means, rfl⟩

private theorem exists_heads_means (stand : Stand definitions before) {heads : List Head}
    {selectors : List Selector} (h : heads.mapM (Head.selector definitions) = some selectors) :
    ∃ heads', List.Forall₂ (Head.Means before) heads heads' := by
  refine exists_forall₂_of_mapM (fun head selector found => ?_) h
  obtain ⟨condition, found, -⟩ := Option.map_eq_some_iff.1 found
  obtain ⟨r', means⟩ := exists_restriction_means stand found
  exact ⟨⟨head.target, r'⟩, rfl, means⟩

variable {s s' : State} {selectors : List Selector} {outer : List (List Selector)}

private theorem evaluate_of_means (stand : Stand s.definitions before) {value meaning : List Token}
    (nonempty : value ≠ []) (means : Means before value meaning) (important : Bool) :
    s.evaluate registry value important =
      (s.value registry meaning important).toOption.map fun (read, s) => (meaning, read, s) := by
  rw [State.evaluate, if_neg (by simpa using nonempty), Builder.toOption_substitute,
    (expand_eq_some_iff stand).2 means, Option.bind_some]

private theorem exists_means_of_evaluate (stand : Stand s.definitions before)
    {value tokens : List Token} {important : Bool} {read : Value}
    (h : s.evaluate registry value important = some (tokens, read, s')) :
    value ≠ [] ∧ Means before value tokens := by
  unfold State.evaluate at h
  split at h
  · cases h
  · rename_i nonempty
    obtain ⟨expanded, substituted, h⟩ := Option.bind_eq_some_iff.1 h
    obtain ⟨result, -, equal⟩ := Option.map_eq_some_iff.1 h
    cases equal
    rw [Builder.toOption_substitute, expand_eq_some_iff stand] at substituted
    exact ⟨by simpa using nonempty, substituted⟩

private theorem perform_property (stand : Stand s.definitions before) {p : Property} {c : Clause}
    (resolves : Resolves before p.clause c) :
    c.perform registry ⟨s, selectors :: outer⟩ =
      (p.effect registry selectors s).map fun s' => ⟨s', selectors :: outer⟩ := by
  unfold Property.clause at resolves
  rw [Property.effect, Property.path?]
  dsimp only at resolves ⊢
  cases resolves with
  | @declare _ _ meaning _ nonempty means =>
      rw [Clause.perform, evaluate_of_means stand nonempty means]
      cases spelled [] p.key with
      | none => rfl
      | some path => cases s.value registry meaning _ <;> rfl

private theorem exists_resolves_property (stand : Stand s.definitions before) {p : Property}
    (h : p.effect registry selectors s = some s') : ∃ c, Resolves before p.clause c := by
  obtain ⟨path, -, h⟩ := Option.bind_eq_some_iff.1 h
  obtain ⟨⟨tokens, read, s₁⟩, evaluates, -⟩ := Option.map_eq_some_iff.1 h
  obtain ⟨nonempty, means⟩ := exists_means_of_evaluate stand evaluates
  exact ⟨_, .declare nonempty means⟩

private theorem perform_define (stand : Stand s.definitions before) {name : String} {value : Phrase}
    {c : Clause} (resolves : Resolves before (.define name value.tokens) c)
    (scopes : List (List Selector)) :
    c.perform registry ⟨s, scopes⟩ =
      (define registry s (name, value)).map fun s' => ⟨s', scopes⟩ := by
  cases resolves with
  | @define _ _ meaning nonempty means =>
      rw [Clause.perform, Draft.define, evaluate_of_means stand nonempty means]
      cases s.value registry meaning false <;> rfl

private theorem stand_of_define (stand : Stand s.definitions before) {name : String}
    {value : Phrase} (h : define registry s (name, value) = some s') :
    (∃ c, Resolves before (.define name value.tokens) c) ∧
      Stand s'.definitions (before ++ [.define name value.tokens]) := by
  obtain ⟨⟨tokens, read, s₁⟩, evaluates, rfl⟩ := Option.map_eq_some_iff.1 h
  obtain ⟨nonempty, means⟩ := exists_means_of_evaluate stand evaluates
  have kept : s₁.definitions = s.definitions := (keeps_evaluate evaluates).definitions
  refine ⟨⟨_, .define nonempty means⟩, ?_⟩
  have noted :
      Stand ((name, tokens) :: s₁.definitions) (before ++ [.define name value.tokens]) := by
    rw [kept]
    exact stand.define means
  exact noted

private theorem Property.clause_ne_define (p : Property) (name : String) (value : List Token) :
    p.clause ≠ .define name value := by
  simp [Property.clause]

private theorem ne_define_of_mem_body {body : Body} {c : Clause} (member : c ∈ body.clauses) :
    ∀ name value, c ≠ .define name value := by
  induction body with
  | done => cases member
  | declare property next ih =>
      rcases List.mem_cons.1 member with rfl | member
      · rintro name value ⟨⟩
      · exact ih member
  | nest restriction inside next ih_inside ih_next =>
      rcases List.mem_cons.1 member with rfl | member
      · rintro name value ⟨⟩
      rcases List.mem_append.1 member with member | member
      · exact ih_inside member
      rcases List.mem_cons.1 member with rfl | member
      · rintro name value ⟨⟩
      · exact ih_next member

private theorem Stand.others (stand : Stand definitions before) {clauses : List Clause}
    (others : ∀ c ∈ clauses, ∀ name value, c ≠ .define name value) :
    Stand definitions (before ++ clauses) := by
  induction clauses generalizing before with
  | nil => rwa [List.append_nil]
  | cons c rest ih =>
      obtain ⟨here, there⟩ := List.forall_mem_cons.1 others
      rw [List.append_cons]
      exact ih (stand.other here) there

private theorem foldlM_body {body : Body} (stand : Stand s.definitions before)
    {resolved : List Clause} (resolves : Scoped before body.clauses resolved) :
    resolved.foldlM (Clause.perform registry) ⟨s, selectors :: outer⟩ =
      (body.effect (semantics registry) selectors s).map fun s' => ⟨s', selectors :: outer⟩ := by
  induction body generalizing s before resolved selectors outer with
  | done =>
      cases resolves
      rfl
  | declare property next ih =>
      cases resolves with
      | cons here later =>
          rw [List.foldlM_cons, perform_property stand here, effect_declare]
          cases effect : property.effect registry selectors s with
          | none => rfl
          | some s₁ =>
              have kept : s₁.definitions = s.definitions := (keeps_property effect).definitions
              refine ih ?_ later
              rw [kept]
              exact stand.other property.clause_ne_define
  | nest restriction inside next ih_inside ih_next =>
      cases resolves with
      | cons here later =>
          obtain ⟨inside', rest', rfl, within, behind⟩ := later.of_append
          cases here with
          | nest means =>
              cases behind with
              | cons left next_resolves =>
                  cases left
                  rw [List.foldlM_cons, Clause.perform, List.head?_cons, Option.bind_some,
                    ← means.refine_eq stand, effect_nest]
                  cases restriction.refine s.definitions selectors with
                  | none => rfl
                  | some nested =>
                      have entered : Stand (s.introduceAll nested).definitions
                          (before ++ [.nest restriction]) := stand.other (by simp)
                      rw [Option.map_some, Option.bind_eq_bind, Option.bind_some,
                        List.foldlM_append, Stage.enter, ih_inside entered within,
                        Option.bind_some]
                      cases effect :
                          inside.effect (semantics registry) nested (s.introduceAll nested) with
                      | none => rfl
                      | some s₁ =>
                          have kept : s₁.definitions = s.definitions :=
                            (keeps_body effect).definitions
                          refine ih_next ?_ next_resolves
                          rw [kept]
                          exact (entered.others fun c => ne_define_of_mem_body).other (by simp)

private theorem exists_scoped_body {body : Body} (stand : Stand s.definitions before)
    (h : body.effect (semantics registry) selectors s = some s') :
    ∃ resolved, Scoped before body.clauses resolved := by
  induction body generalizing s s' before selectors with
  | done => exact ⟨[], .nil⟩
  | declare property next ih =>
      obtain ⟨s₁, effect, h⟩ := Option.bind_eq_some_iff.1 h
      obtain ⟨c, here⟩ := exists_resolves_property stand effect
      have kept : s₁.definitions = s.definitions := (keeps_property effect).definitions
      have passed : Stand s₁.definitions (before ++ [property.clause]) := by
        rw [kept]
        exact stand.other property.clause_ne_define
      obtain ⟨resolved, later⟩ := ih passed h
      exact ⟨c :: resolved, .cons here later⟩
  | nest restriction inside next ih_inside ih_next =>
      obtain ⟨nested, refined, h⟩ := Option.bind_eq_some_iff.1 h
      obtain ⟨s₁, effect, h⟩ := Option.bind_eq_some_iff.1 h
      obtain ⟨condition, found, -⟩ := Option.bind_eq_some_iff.1 refined
      obtain ⟨r', means⟩ := exists_restriction_means stand found
      have entered : Stand (s.introduceAll nested).definitions (before ++ [.nest restriction]) :=
        stand.other (by simp)
      obtain ⟨inside', within⟩ := ih_inside entered effect
      have kept : s₁.definitions = s.definitions := (keeps_body effect).definitions
      have left : Stand s₁.definitions
          (before ++ [.nest restriction] ++ Body.clauses inside ++ [.leave]) := by
        rw [kept]
        exact (entered.others fun c => ne_define_of_mem_body).other (by simp)
      obtain ⟨next', behind⟩ := ih_next left h
      exact ⟨_, .cons (.nest means) (within.append (.cons .leave behind))⟩

private theorem foldlM_definitions {values : List (String × Phrase)}
    (stand : Stand s.definitions before) {resolved : List Clause} {scopes : List (List Selector)}
    (resolves : Scoped before (Block.clauses (.globals values)) resolved) :
    resolved.foldlM (Clause.perform registry) ⟨s, scopes⟩ =
      (values.foldlM (define registry) s).map fun s' => ⟨s', scopes⟩ := by
  induction values generalizing s before resolved with
  | nil =>
      cases resolves
      rfl
  | cons definition rest ih =>
      obtain ⟨name, value⟩ := definition
      cases resolves with
      | cons here later =>
          rw [List.foldlM_cons, List.foldlM_cons, perform_define stand here scopes]
          cases effect : define registry s (name, value) with
          | none => rfl
          | some s₁ => exact ih (stand_of_define stand effect).2 later

private theorem stand_of_definitions {values : List (String × Phrase)}
    (stand : Stand s.definitions before) (h : values.foldlM (define registry) s = some s') :
    (∃ resolved, Scoped before (Block.clauses (.globals values)) resolved) ∧
      Stand s'.definitions (before ++ (Block.clauses (.globals values))) := by
  induction values generalizing s before with
  | nil =>
      cases h
      exact ⟨⟨[], .nil⟩, by rwa [Block.clauses, List.map_nil, List.append_nil]⟩
  | cons definition rest ih =>
      obtain ⟨name, value⟩ := definition
      rw [List.foldlM_cons] at h
      obtain ⟨s₁, effect, h⟩ := Option.bind_eq_some_iff.1 h
      obtain ⟨⟨c, here⟩, stand₁⟩ := stand_of_define stand effect
      obtain ⟨⟨resolved, later⟩, stand'⟩ := ih stand₁ h
      rw [List.append_assoc] at stand'
      exact ⟨⟨c :: resolved, .cons here later⟩, stand'⟩

private theorem foldlM_block {block : Block} (stand : Stand s.definitions before)
    {resolved : List Clause} (resolves : Scoped before block.clauses resolved) :
    resolved.foldlM (Clause.perform registry) ⟨s, []⟩ =
      (block.effect (semantics registry) s).map fun s' => ⟨s', []⟩ := by
  cases block with
  | globals values => exact foldlM_definitions stand resolves
  | rules first others body =>
      cases resolves with
      | cons here later =>
          obtain ⟨inside, rest, rfl, within, behind⟩ := later.of_append
          cases here with
          | start means =>
              cases behind with
              | cons left done =>
                  cases left
                  cases done
                  rw [List.foldlM_cons, Clause.perform, ← selectors_of_means stand means,
                    effect_rules]
                  cases (first :: others).mapM (Head.selector s.definitions) with
                  | none => rfl
                  | some selectors =>
                      have entered : Stand (s.introduceAll selectors).definitions
                          (before ++ [.start (first :: others)]) := stand.other (by simp)
                      rw [Option.map_some, Option.bind_eq_bind, Option.bind_some,
                        List.foldlM_append, Stage.enter, foldlM_body entered within,
                        Option.bind_some]
                      cases body.effect (semantics registry) selectors (s.introduceAll selectors) <;>
                        rfl

private theorem stand_of_block {block : Block} (stand : Stand s.definitions before)
    (h : block.effect (semantics registry) s = some s') :
    (∃ resolved, Scoped before block.clauses resolved) ∧
      Stand s'.definitions (before ++ block.clauses) := by
  cases block with
  | globals values => exact stand_of_definitions stand h
  | rules first others body =>
      obtain ⟨selectors, found, effect⟩ := Option.bind_eq_some_iff.1 h
      obtain ⟨heads', means⟩ := exists_heads_means stand found
      have entered : Stand (s.introduceAll selectors).definitions
          (before ++ [.start (first :: others)]) := stand.other (by simp)
      obtain ⟨inside, within⟩ := exists_scoped_body entered effect
      have kept : s'.definitions = s.definitions := (keeps_body effect).definitions
      refine ⟨⟨_, .cons (.start means) (within.append (.cons .leave .nil))⟩, ?_⟩
      rw [kept, Block.clauses, List.append_cons, ← List.append_assoc]
      exact (entered.others fun c => ne_define_of_mem_body).other (by simp)

private theorem foldlM_clauses {blocks : List Block} (stand : Stand s.definitions before)
    {resolved : List Clause} (resolves : Scoped before (clauses blocks) resolved) :
    resolved.foldlM (Clause.perform registry) ⟨s, []⟩ =
      (blocks.foldlM (Outline.Block.effect (semantics registry)) s).map fun s' => ⟨s', []⟩ := by
  induction blocks generalizing s before resolved with
  | nil =>
      cases resolves
      rfl
  | cons block rest ih =>
      obtain ⟨here, there, rfl, block_resolves, rest_resolves⟩ := resolves.of_append
      rw [List.foldlM_append, foldlM_block stand block_resolves, List.foldlM_cons]
      cases effect : block.effect (semantics registry) s with
      | none => rfl
      | some s₁ => exact ih (stand_of_block stand effect).2 rest_resolves

theorem stand_of_clauses {blocks : List Block} (stand : Stand s.definitions before)
    (h : blocks.foldlM (Outline.Block.effect (semantics registry)) s = some s') :
    (∃ resolved, Scoped before (clauses blocks) resolved) ∧
      Stand s'.definitions (before ++ clauses blocks) := by
  induction blocks generalizing s before with
  | nil =>
      cases h
      exact ⟨⟨[], .nil⟩, by rwa [clauses, List.flatMap_nil, List.append_nil]⟩
  | cons block rest ih =>
      rw [List.foldlM_cons] at h
      obtain ⟨s₁, effect, h⟩ := Option.bind_eq_some_iff.1 h
      obtain ⟨⟨here, block_resolves⟩, stand₁⟩ := stand_of_block stand effect
      obtain ⟨⟨there, rest_resolves⟩, stand'⟩ := ih stand₁ h
      rw [List.append_assoc] at stand'
      exact ⟨⟨here ++ there, block_resolves.append rest_resolves⟩, stand'⟩

end

private theorem Resolves.phrases {before : List Clause} {c c' : Clause} (h : Resolves before c c') :
    List.Forall₂ (Means before) c.phrases c'.phrases := by
  cases h with
  | define _ means => exact .cons means .nil
  | start means => exact List.rel_flatMap means fun _ _ means => means.restriction.conditions
  | nest means => exact means.conditions
  | leave => exact .nil
  | declare _ means => exact .cons means .nil

private theorem Resolves.not_mentions {before : List Clause} {c c' : Clause}
    (h : Resolves before c c') (name : String) : ¬c'.Mentions name := by
  rintro ⟨phrase, phrase_mem, token, token_mem, reference⟩
  have left : List.Forall₂ (fun out written => (∀ token ∈ out, ∀ name,
      token.kind ≠ .atWord name) ∧ Means before written out) c'.phrases c.phrases :=
    h.phrases.flip.imp fun _ _ means => ⟨means.no_reference, means⟩
  exact ((List.forall₂_and_left _ _).1 left).1 phrase phrase_mem token token_mem name reference

private theorem Resolves.exists_define {before : List Clause} {c c' : Clause}
    (h : Resolves before c c') {name : String} (mentions : c.Mentions name) :
    ∃ value, .define name value ∈ before := by
  obtain ⟨phrase, phrase_mem, token, token_mem, reference⟩ := mentions
  have right : List.Forall₂ (fun written out => (∀ token ∈ written, ∀ name,
      token.kind = .atWord name → ∃ value, .define name value ∈ before) ∧
        Means before written out) c.phrases c'.phrases :=
    h.phrases.imp fun _ _ means => ⟨fun _ member _ => means.exists_define member, means⟩
  exact ((List.forall₂_and_left _ _).1 right).1 phrase phrase_mem token token_mem name reference

private theorem Scoped.not_mentions {before clauses resolved : List Clause}
    (h : Scoped before clauses resolved) : ∀ c ∈ resolved, ∀ name, ¬c.Mentions name := by
  induction h with
  | nil => simp
  | cons resolves _ ih => exact List.forall_mem_cons.2 ⟨resolves.not_mentions, ih⟩

theorem Scoped.exists_means {clauses resolved above : List Clause} {name : String}
    {value : List Token} (h : Scoped [] clauses resolved)
    (latest : Latest clauses name above value) :
    ∃ meaning, Means above value meaning := by
  obtain ⟨below, rfl, -⟩ := latest
  obtain ⟨above', rest', -, -, later⟩ := h.of_append
  cases later with
  | cons resolves _ =>
      cases resolves with
      | define _ means => exact ⟨_, means⟩

private theorem Scoped.exists_define {before above below resolved : List Clause} {c : Clause}
    (h : Scoped before (above ++ c :: below) resolved) {name : String}
    (mentions : c.Mentions name) : ∃ value, .define name value ∈ before ++ above := by
  obtain ⟨above', rest', rfl, -, later⟩ := h.of_append
  cases later with
  | cons resolves _ => exact resolves.exists_define mentions

end Draft

namespace Builder

open Draft (Clause Scoped Stage clauses)

section

variable {registry : Registry} {serial : Nat} {tokens : List Token} {s : State}
  {blocks : List Draft.Block}

theorem build_eq_ok_iff_effect (written : Draft.Written blocks tokens) :
    build registry serial tokens = .ok s ↔
      blocks.foldlM (Outline.Block.effect (Draft.semantics registry)) (.start serial) = some s := by
  rw [← toOption_build (reads_draft registry) written]
  exact ⟨fun h => congrArg Except.toOption h, eq_ok_of_toOption⟩

/-- What is built is what the clauses do once their references are replaced. -/
theorem exists_performed_of_build (accepted : build registry serial tokens = .ok s)
    (written : Draft.Written blocks tokens) :
    ∃ resolved, Scoped [] (clauses blocks) resolved ∧
      resolved.foldlM (Clause.perform registry) (.start serial) = some ⟨s, []⟩ := by
  have effect := (build_eq_ok_iff_effect written).1 accepted
  have stand : Draft.Stand (State.start serial).definitions [] := Draft.stand_nil
  obtain ⟨⟨resolved, resolves⟩, -⟩ := Draft.stand_of_clauses stand effect
  exact ⟨resolved, resolves,
    (Draft.foldlM_clauses stand resolves).trans (congrArg _ effect)⟩

end

/-- Tokens that are read are a draft, and however they are taken for one, all references in it can
be replaced by what the last definitions above them mean there. It is read if and only if they can
be, and then as what its clauses do without any reference. -/
theorem build_eq_ok_iff_scoped {registry : Registry} {serial : Nat} {tokens : List Token}
    {s : State} :
    (build registry serial tokens = .ok s → ∃ blocks, Draft.Written blocks tokens) ∧
      ∀ blocks, Draft.Written blocks tokens →
        (build registry serial tokens = .ok s ↔
          ∃ resolved, Scoped [] (clauses blocks) resolved ∧
            (∀ c ∈ resolved, ∀ name, ¬c.Mentions name) ∧
            resolved.foldlM (Clause.perform registry) (.start serial) = some ⟨s, []⟩) ∧
        (build registry serial tokens = .ok s →
          ∀ above c below name, clauses blocks = above ++ c :: below → c.Mentions name →
            ∃ value, .define name value ∈ above) := by
  refine ⟨exists_written_of_build, fun blocks written => ?_⟩
  refine ⟨⟨fun accepted => ?_, ?_⟩, fun accepted above c below name split mentions => ?_⟩
  · obtain ⟨resolved, resolves, performs⟩ := exists_performed_of_build accepted written
    exact ⟨resolved, resolves, resolves.not_mentions, performs⟩
  · rintro ⟨resolved, resolves, -, performs⟩
    have stand : Draft.Stand (State.start serial).definitions [] := Draft.stand_nil
    have performed := (Draft.foldlM_clauses stand resolves).symm.trans performs
    obtain ⟨s', effect, equal⟩ := Option.map_eq_some_iff.1 performed
    cases equal
    exact (build_eq_ok_iff_effect written).2 effect
  · obtain ⟨resolved, resolves, -⟩ := exists_performed_of_build accepted written
    rw [split] at resolves
    exact resolves.exists_define mentions

/-- A definition that mentions its own name, with a use in front of it and one behind it. -/
theorem build_eq_ok_iff_scoped_again : ∃ (blocks : List Draft.Block) (tokens : List Token)
    (resolved : List Clause) (s : State),
    Token.render tokens =
        "@global \x7b @a = w; @b = not @a; @a = u@a; \x7d A[@b] \x7b x: @a @b; \x7d" ∧
      Draft.Written blocks tokens ∧ Scoped [] (clauses blocks) resolved ∧
        resolved.map (fun c => c.phrases.map Token.render) =
          [["w"], ["not w"], ["uw"], ["not w"], ["uw not w"], []] ∧
        build .builtins 0 tokens = .ok s := by
  let spaced (kind : Token.Kind) : Token := ⟨kind, anywhere, true⟩
  let close (kind : Token.Kind) : Token := ⟨kind, anywhere, false⟩
  let phrase (tokens : List Token) (whole : Unbroken _ 0 tokens) : Draft.Phrase :=
    ⟨tokens, whole⟩
  let first := phrase [spaced (.ident "w")] (by decide +kernel)
  let second := phrase [spaced (.ident "not"), spaced (.atWord "a")] (by decide +kernel)
  let third := phrase [spaced (.ident "u"), close (.atWord "a")] (by decide +kernel)
  let fourth := phrase [spaced (.atWord "a"), spaced (.atWord "b")] (by decide +kernel)
  let head : Outline.Head := ⟨.className "A", ⟨[[close (.atWord "b")]], none⟩⟩
  let property : Draft.Property := ⟨"x", [], fourth, by simp⟩
  let assign := spaced (.operator .assign)
  let blocks : List Draft.Block :=
    [.globals [("a", first), ("b", second), ("a", third)], .rules head [] (.declare property .done)]
  obtain ⟨tokens, rendered, written⟩ : ∃ tokens, Token.render tokens =
      "@global \x7b @a = w; @b = not @a; @a = u@a; \x7d A[@b] \x7b x: @a @b; \x7d" ∧
        Draft.Written blocks tokens :=
    ⟨_, by decide +kernel, .block
      (@Outline.Block.Written.globals _ _ _ "global" _ _ anywhere anywhere anywhere false true true
        (by decide +kernel)
        (.define "a" first assign anywhere true (.inl rfl)
          (.stray anywhere false (.define "b" second assign anywhere true (.inl rfl)
            (.stray anywhere false (.define "a" third assign anywhere true (.inl rfl)
              (.stray anywhere false .nil) (.inr ⟨_, _, _, rfl⟩)))
            (.inr ⟨_, _, _, rfl⟩)))
          (.inr ⟨_, _, _, rfl⟩)))
      (.block (.rules anywhere anywhere true true (by decide +kernel)
        (.last (.intro (.class "A" anywhere true)
          (.intro (.cons _ anywhere anywhere false false .nil) .absent)))
        (.declare (@Draft.Property.Written.intro property [spaced (.ident "x")] anywhere false rfl)
          (.stray anywhere false .done) (.inr ⟨_, _, _, rfl⟩))) .nil)⟩
  let resolved : List Clause :=
    [.define "a" [spaced (.ident "w")], .define "b" [spaced (.ident "not"), spaced (.ident "w")],
      .define "a" [spaced (.ident "u"), close (.ident "w")],
      .start [⟨.className "A", ⟨[[close (.ident "not"), spaced (.ident "w")]], none⟩⟩],
      .declare property.key [spaced (.ident "u"), close (.ident "w"), spaced (.ident "not"),
        spaced (.ident "w")] false,
      .leave]
  have resolves : Scoped [] (clauses blocks) resolved := by
    -- What the three definitions mean, each below the ones before it.
    have stand₀ := Draft.stand_nil
    have first_means : Draft.Means [] first.tokens _ := (Draft.expand_eq_some_iff stand₀).1 rfl
    have stand₁ : Draft.Stand _ [.define "a" first.tokens] := stand₀.define first_means
    have second_means : Draft.Means _ second.tokens _ := (Draft.expand_eq_some_iff stand₁).1 rfl
    have stand₂ : Draft.Stand _ ([.define "a" first.tokens] ++ [.define "b" second.tokens]) :=
      stand₁.define second_means
    have third_means : Draft.Means _ third.tokens _ := (Draft.expand_eq_some_iff stand₂).1 rfl
    have stand₃ : Draft.Stand _ (_ ++ [.define "a" third.tokens]) := stand₂.define third_means
    have head_means : Draft.Means _ [close (.atWord "b")] _ :=
      (Draft.expand_eq_some_iff stand₃).1 rfl
    have stand₄ : Draft.Stand _ (_ ++ [.start [head]]) := stand₃.other (by simp)
    have fourth_means : Draft.Means _ fourth.tokens _ := (Draft.expand_eq_some_iff stand₄).1 rfl
    exact .cons (.define (List.cons_ne_nil _ _) first_means)
      (.cons (.define (List.cons_ne_nil _ _) second_means)
        (.cons (.define (List.cons_ne_nil _ _) third_means)
          (.cons (.start (.cons ⟨rfl, .cons head_means .nil, rfl⟩ .nil))
            (.cons (.declare (List.cons_ne_nil _ _) fourth_means) (.cons .leave .nil)))))
  obtain ⟨⟨s, scopes⟩, performs, closed⟩ : ∃ stage,
      resolved.foldlM (Clause.perform .builtins) (.start 0) = some stage ∧
        stage.scopes.isEmpty = true :=
    Option.map_eq_some_iff.1 (by decide +kernel)
  cases List.isEmpty_iff.1 closed
  have read : build .builtins 0 tokens = .ok s :=
    ((build_eq_ok_iff_scoped.2 blocks written).1).2
      ⟨resolved, resolves, resolves.not_mentions, performs⟩
  exact ⟨blocks, tokens, resolved, s, rendered, written, resolves, by decide +kernel, read⟩

end Builder

end ViewStyle
