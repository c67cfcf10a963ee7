/-
What the text of a value says. A value is read from its tokens, with the tokens of variables in the
place of references, and only then written as a text. Where the references stand apart, that text is
made of the same tokens, so that it is read as the same literal; next to a word it may not be.
-/

import ViewStyle.Proofs.Stylesheet.Exported
import ViewStyle.Proofs.Stylesheet.Neighbours

set_option autoImplicit false

namespace ViewStyle

open Builder (State)
open Text (Span)

def Literal.text? : Literal → Option String
  | .text s => some s
  | _ => none

def Literal.color? : Literal → Option Color
  | .color c => some c
  | _ => none

private theorem Literal.text?_eq_some {literal : Literal} {s : String} :
    literal.text? = some s ↔ literal = .text s := by
  cases literal <;> simp [text?]

private theorem Literal.color?_eq_some {literal : Literal} {c : Color} :
    literal.color? = some c ↔ literal = .color c := by
  cases literal <;> simp [color?]

def Rules.Holds (t : Rules) (v : Value) : Prop :=
  ∃ e ∈ t.entries, ∃ d ∈ e.declared.entries, d.2.value = v

/-- The value is set for a selector, or it is the value of a variable. -/
def Stylesheet.Holds (s : Stylesheet) (v : Value) : Prop :=
  s.rules.Holds v ∨ ∃ d ∈ s.globals.entries, d.2 = v

namespace Rules

variable {t : Rules} {v : Value}

private theorem Holds.of_introduce {s : Selector} (h : (t.introduce s).Holds v) : t.Holds v := by
  unfold introduce at h
  split at h
  · exact h
  · obtain ⟨e, member, d, inside, same⟩ := h
    rcases List.mem_append.1 member with member | member
    · exact ⟨e, member, d, inside, same⟩
    · cases List.mem_singleton.1 member
      cases inside

private theorem Holds.of_introduceAll {selectors : List Selector}
    (h : (selectors.foldl introduce t).Holds v) : t.Holds v := by
  induction selectors generalizing t with
  | nil => exact h
  | cons s rest ih => exact (ih h).of_introduce

private theorem Holds.of_declare {s : Selector} {key : KeyPath} {value : Value} {order : Nat}
    (h : (t.declare s key value order).Holds v) : v = value ∨ t.Holds v := by
  obtain ⟨e, member, d, inside, same⟩ := h
  obtain ⟨before, introduced, rfl⟩ := List.mem_map.1 member
  have kept (inside : d ∈ before.declared.entries) : t.Holds v :=
    Holds.of_introduce (s := s) ⟨before, introduced, d, inside, same⟩
  split at inside
  · rcases OrderedMap.mem_insertEntry inside with rfl | inside
    · exact .inl same.symm
    · exact .inr (kept inside)
  · exact .inr (kept inside)

private theorem Holds.of_declareAll {selectors : List Selector} {key : KeyPath} {value : Value}
    {order : Nat}
    (h : (selectors.foldl (fun t s => t.declare s key value order) t).Holds v) :
    v = value ∨ t.Holds v := by
  induction selectors generalizing t with
  | nil => exact .inr h
  | cons s rest ih => exact (ih h).elim .inl Holds.of_declare

end Rules

namespace Draft

def Evaluated (registry : Registry) (tokens : List Token) (v : Value) : Prop :=
  ∃ (s s' : State) (important : Bool), s.value registry tokens important = .ok (v, s')

private theorem holds_perform {registry : Registry} {stage stage' : Stage} {c : Clause} {v : Value}
    (performs : c.perform registry stage = some stage') (h : stage'.state.sheet.Holds v) :
    stage.state.sheet.Holds v ∨ ∃ value ∈ c.values, Evaluated registry value v := by
  cases c with
  | define name value =>
      obtain ⟨⟨read, s'⟩, found, rfl⟩ := Option.map_eq_some_iff.1 performs
      have evaluated := eq_ok_of_toOption found
      have sheet : s'.sheet = stage.state.sheet := Builder.sheet_value evaluated
      rw [← sheet]
      rcases h with rules | ⟨d, member, rfl⟩
      · exact .inl (.inl rules)
      · rcases OrderedMap.mem_insertEntry member with rfl | member
        · exact .inr ⟨value, List.mem_singleton_self _, _, _, _, evaluated⟩
        · exact .inl (.inr ⟨d, member, rfl⟩)
  | start heads =>
      obtain ⟨selectors, -, rfl⟩ := Option.map_eq_some_iff.1 performs
      exact .inl (h.imp_left Rules.Holds.of_introduceAll)
  | nest restriction =>
      obtain ⟨selectors, -, performs⟩ := Option.bind_eq_some_iff.1 performs
      obtain ⟨nested, -, rfl⟩ := Option.map_eq_some_iff.1 performs
      exact .inl (h.imp_left Rules.Holds.of_introduceAll)
  | leave =>
      cases performs
      exact .inl h
  | declare key value important =>
      obtain ⟨selectors, -, performs⟩ := Option.bind_eq_some_iff.1 performs
      obtain ⟨path, -, performs⟩ := Option.bind_eq_some_iff.1 performs
      obtain ⟨⟨read, s'⟩, found, rfl⟩ := Option.map_eq_some_iff.1 performs
      have evaluated := eq_ok_of_toOption found
      have sheet : s'.sheet = stage.state.sheet := Builder.sheet_value evaluated
      rw [← sheet]
      rcases h with rules | globals
      · rcases Rules.Holds.of_declareAll rules with rfl | rules
        · exact .inr ⟨value, List.mem_singleton_self _, _, _, _, evaluated⟩
        · exact .inl (.inl rules)
      · exact .inl (.inr globals)

theorem exists_evaluated_of_holds {registry : Registry} {clauses : List Clause}
    {stage stage' : Stage} {v : Value}
    (performs : clauses.foldlM (Clause.perform registry) stage = some stage')
    (h : stage'.state.sheet.Holds v) :
    stage.state.sheet.Holds v ∨
      ∃ c ∈ clauses, ∃ value ∈ c.values, Evaluated registry value v := by
  induction clauses generalizing stage with
  | nil =>
      cases performs
      exact .inl h
  | cons c rest ih =>
      rw [List.foldlM_cons] at performs
      obtain ⟨next, here, there⟩ := Option.bind_eq_some_iff.1 performs
      rcases ih there with before | ⟨c', member, value, values, read⟩
      · rcases holds_perform here before with before | ⟨value, values, read⟩
        · exact .inl before
        · exact .inr ⟨c, List.mem_cons_self, value, values, read⟩
      · exact .inr ⟨c', List.mem_cons_of_mem _ member, value, values, read⟩

private theorem exists_clause_of_holds {registry : Registry} {clauses : List Clause}
    {stage stage' : Stage} {v : Value}
    (performs : clauses.foldlM (Clause.perform registry) stage = some stage')
    (h : stage'.state.sheet.Holds v) :
    stage.state.sheet.Holds v ∨ ∃ c ∈ clauses, ∃ value ∈ c.values, v.ReadFrom registry value := by
  refine (exists_evaluated_of_holds performs h).imp_right ?_
  rintro ⟨c, member, value, values, s, s', important, evaluated⟩
  exact ⟨c, member, value, values, (readFrom_value evaluated).1⟩

theorem Scoped.exists_resolves {before clauses resolved : List Clause}
    (h : Scoped before clauses resolved) {c' : Clause} (member : c' ∈ resolved) :
    ∃ front c back, clauses = front ++ c :: back ∧ Resolves (before ++ front) c c' := by
  induction h with
  | nil => cases member
  | @cons before rest _ c _ resolves _ ih =>
      rcases List.mem_cons.1 member with rfl | member
      · exact ⟨[], c, rest, rfl, by rwa [List.append_nil]⟩
      · obtain ⟨front, c', back, rfl, resolves'⟩ := ih member
        rw [List.append_assoc] at resolves'
        exact ⟨c :: front, c', back, rfl, resolves'⟩

theorem Resolves.exists_means {before : List Clause} {c c' : Clause} (h : Resolves before c c') :
    (∀ value ∈ c.values, value ≠ []) ∧
      ∀ meaning ∈ c'.values, ∃ value ∈ c.values, Means before value meaning := by
  cases h with
  | define nonempty means =>
      refine ⟨List.forall_mem_singleton.2 nonempty, fun meaning member => ?_⟩
      cases List.mem_singleton.1 member
      exact ⟨_, List.mem_singleton_self _, means⟩
  | declare nonempty means =>
      refine ⟨List.forall_mem_singleton.2 nonempty, fun meaning member => ?_⟩
      cases List.mem_singleton.1 member
      exact ⟨_, List.mem_singleton_self _, means⟩
  | start => exact ⟨nofun, nofun⟩
  | nest => exact ⟨nofun, nofun⟩
  | leave => exact ⟨nofun, nofun⟩

private theorem Scoped.nonempty {before clauses resolved : List Clause}
    (h : Scoped before clauses resolved) : ∀ c ∈ clauses, ∀ value ∈ c.values, value ≠ [] := by
  induction h with
  | nil => exact nofun
  | cons resolves _ ih => exact List.forall_mem_cons.2 ⟨resolves.exists_means.1, ih⟩

/-- The value and the definitions above it are excerpts in which references stand apart. -/
structure Distinct (above : List Clause) (value : List Token) : Prop where
  excerpt : Excerpt value
  apart : value.IsChain Token.Apart
  definitions : ∀ name definition, .define name definition ∈ above →
    Excerpt definition ∧ definition.IsChain Token.Apart

private theorem distinct_of_scan {source : String} {origin : Option String} {tokens : List Token}
    (plain : Token.PlainSource source) (scanned : Token.scan source origin = .ok tokens)
    {blocks : List Block} (written : Written blocks tokens)
    (apart : ∀ c ∈ clauses blocks, ∀ value ∈ c.values, value.IsChain Token.Apart)
    {above below : List Clause} {c : Clause} (split : clauses blocks = above ++ c :: below)
    {value : List Token} (values : value ∈ c.values) : Distinct above value := by
  have excerpts := excerpt_of_scan plain scanned written
  have here : c ∈ clauses blocks := split ▸ List.mem_append_right _ List.mem_cons_self
  refine ⟨excerpts c here value values, apart c here value values, fun name definition member => ?_⟩
  have listed : .define name definition ∈ clauses blocks := split ▸ List.mem_append_left _ member
  exact ⟨excerpts _ listed _ (List.mem_singleton_self _),
    apart _ listed _ (List.mem_singleton_self _)⟩

end Draft

namespace Builder

/-- Without plugins, every value has the literal of the tokens that it means, and their text. If
references stand apart in it and in the definitions above, then that text is scanned if and only if
the tokens close the groups that they open, and read as the same literal. -/
theorem literal_of_raw {serial : Nat} {tokens : List Token} {s : State}
    {blocks : List Draft.Block} (accepted : build [] serial tokens = .ok s)
    (written : Draft.Written blocks tokens) {v : Value} (holds : s.sheet.Holds v) :
    ∃ above c below value meaning, Draft.clauses blocks = above ++ c :: below ∧
      value ∈ c.values ∧ Draft.Means above value meaning ∧ v.raw = Token.render meaning ∧
      v.content = .literal (Literal.ofTokens meaning) ∧
      (Draft.Distinct above value → ∀ origin,
        ((∃ read, Token.scan v.raw origin = .ok read) ↔ Token.Closes [] meaning) ∧
          ∀ read, Token.scan v.raw origin = .ok read →
            v.content = .literal (Literal.ofTokens read)) := by
  obtain ⟨resolved, resolves, performs⟩ := exists_performed_of_build accepted written
  have from_clause : ∃ c' ∈ resolved, ∃ meaning ∈ c'.values, v.ReadFrom [] meaning := by
    rcases Draft.exists_clause_of_holds performs holds with start | found
    · rcases start with ⟨e, none, -⟩ | ⟨d, none, -⟩ <;> cases none
    · exact found
  obtain ⟨c', member, meaning, values', read⟩ := from_clause
  obtain ⟨above, c, below, split, resolved_here⟩ := resolves.exists_resolves member
  obtain ⟨value, values, means⟩ := resolved_here.exists_means.2 meaning values'
  have content : v.content = .literal (Literal.ofTokens meaning) :=
    Value.literal?_eq_some.1 read.literal
  refine ⟨above, c, below, value, meaning, split, values, means, read.raw, content, ?_⟩
  intro distinct origin
  have definitions : ∀ name definition, .define name definition ∈ above →
      definition ≠ [] ∧ ∃ x, Draft.Placed definition x := by
    intro name definition above_member
    obtain ⟨excerpt, apart⟩ := distinct.definitions name definition above_member
    have listed : .define name definition ∈ Draft.clauses blocks := by
      rw [split]
      exact List.mem_append_left _ above_member
    exact ⟨resolves.nonempty _ listed _ (List.mem_singleton_self _),
      Draft.exists_placed excerpt apart⟩
  obtain ⟨x, placed⟩ := Draft.exists_placed distinct.excerpt distinct.apart
  obtain ⟨closes, same⟩ := (Draft.sound_of_means means definitions placed).literal origin
  rw [read.raw, content]
  exact ⟨closes, fun reread scanned => by rw [same reread scanned]⟩

/-- References between brackets and separators, and in front of the mark of importance. -/
theorem literal_of_raw_between : ∃ (tokens read : List Token) (s : State) (v : Value),
    Token.scan "@global\x7b@a: true; @f: g(@a,'q')\x7d .A\x7bx: @f w; y: @a!important\x7d" none =
        .ok tokens ∧
      build [] 0 tokens = .ok s ∧ s.sheet.Holds v ∧ v.raw = "g(true,\x22q\x22) w" ∧
      Token.scan v.raw none = .ok read ∧ v.content = .literal (Literal.ofTokens read) := by
  let place (column : Nat) : Span := ⟨none, ⟨1, column⟩⟩
  let first : Draft.Phrase := ⟨[⟨.ident "true", place 13, true⟩], fun _ => rfl, rfl⟩
  let second : Draft.Phrase := ⟨[⟨.function "g", place 23, true⟩, ⟨.atWord "a", place 25, false⟩,
    ⟨.punct .comma, place 27, false⟩, ⟨.string "q", place 28, false⟩,
    ⟨.punct (.closing .round), place 31, false⟩], by decide +kernel⟩
  let third : Draft.Phrase :=
    ⟨[⟨.atWord "f", place 40, true⟩, ⟨.ident "w", place 43, true⟩], by decide +kernel⟩
  let fourth : Draft.Phrase := ⟨[⟨.atWord "a", place 49, true⟩, ⟨.punct .bang, place 51, false⟩,
    ⟨.ident "important", place 52, false⟩], by decide +kernel⟩
  let x : Draft.Property := ⟨"x", [], third, List.not_mem_nil⟩
  let y : Draft.Property := ⟨"y", [], fourth, List.not_mem_nil⟩
  let blocks : List Draft.Block := [.globals [("a", first), ("f", second)],
    .rules ⟨.className "A", ⟨[], none⟩⟩ [] (.declare x (.declare y .done))]
  obtain ⟨tokens, scanned, written⟩ : ∃ tokens,
      Token.scan "@global\x7b@a: true; @f: g(@a,'q')\x7d .A\x7bx: @f w; y: @a!important\x7d" none =
        .ok tokens ∧ Draft.Written blocks tokens :=
    ⟨_, by decide +kernel, .block
      (@Outline.Block.Written.globals _ _ _ "global" _ _ (place 1) (place 8) (place 32) false false
        false (by decide +kernel)
        (.define "a" first ⟨.punct .colon, place 11, false⟩ (place 9) false (.inr rfl)
          (.stray (place 17) false
            (.define "f" second ⟨.punct .colon, place 21, false⟩ (place 19) true (.inr rfl) .nil
              (.inl rfl)))
          (.inr ⟨_, _, _, rfl⟩)))
      (.block (.rules (place 36) (place 61) false false (by decide)
        (.last (.intro (.dot "A" (place 34) (place 35) true) (.intro .nil .absent)))
        (.declare
          (@Draft.Property.Written.intro x [⟨.ident "x", place 37, false⟩] (place 38) false rfl)
          (.stray (place 44) false
            (.declare
              (@Draft.Property.Written.intro y [⟨.ident "y", place 46, true⟩] (place 47) false rfl)
              .done (.inl rfl)))
          (.inr ⟨_, _, _, rfl⟩))) .nil)⟩
  have plain : Token.PlainSource
      "@global\x7b@a: true; @f: g(@a,'q')\x7d .A\x7bx: @f w; y: @a!important\x7d" := by
    decide +kernel
  have apart : ∀ c ∈ Draft.clauses blocks, ∀ value ∈ c.values, value.IsChain Token.Apart := by
    decide +kernel
  obtain ⟨s, effect, raws⟩ : ∃ s,
      blocks.foldlM (Outline.Block.effect (Draft.semantics [])) (.start 0) = some s ∧
      (s.sheet.rules.entries.flatMap fun e => e.declared.entries.map (·.2.value.raw)) =
        ["g(true,\x22q\x22) w", "true"] :=
    Option.map_eq_some_iff.1 (by decide +kernel)
  have accepted : build [] 0 tokens = .ok s :=
    (build_eq_ok_iff_effect written).2 effect
  obtain ⟨e, entry, inside⟩ : ∃ e ∈ s.sheet.rules.entries,
      "g(true,\x22q\x22) w" ∈ e.declared.entries.map (·.2.value.raw) := by
    refine List.mem_flatMap.1 ?_
    rw [raws]
    exact List.mem_cons_self
  obtain ⟨d, declared, raw⟩ := List.mem_map.1 inside
  have holds : s.sheet.Holds d.2.value := .inl ⟨e, entry, d, declared, rfl⟩
  obtain ⟨above, c, below, value, meaning, split, values, -, -, -, reads⟩ :=
    literal_of_raw accepted written holds
  have distinct := Draft.distinct_of_scan plain scanned written apart split values
  obtain ⟨read, rescanned⟩ : ∃ read, Token.scan d.2.value.raw none = .ok read := by
    rw [raw]
    exact exists_ok_of_isOk (by decide +kernel)
  exact ⟨tokens, read, s, d.2.value, scanned, accepted, holds, raw, rescanned,
    (reads distinct none).2 read rescanned⟩

/-- A variable for a name in front of a round bracket: the value is a text, and what the text says
is a color. -/
theorem literal_of_raw_glued : ∃ (tokens read : List Token) (s : State) (v : Value) (color : Color),
    Token.scan "@global \x7b @f = rgb; \x7d .A \x7b x: @f(1, 2, 3); \x7d" none = .ok tokens ∧
      build [] 0 tokens = .ok s ∧ s.sheet.Holds v ∧ v.raw = "rgb(1, 2, 3)" ∧
      v.content = .literal (.text "rgb(1, 2, 3)") ∧ Token.scan v.raw none = .ok read ∧
      Literal.ofTokens read = .color color ∧ v.content ≠ .literal (Literal.ofTokens read) := by
  have computed : ((Token.scan "@global \x7b @f = rgb; \x7d .A \x7b x: @f(1, 2, 3); \x7d"
      none).toOption.bind fun tokens => (build [] 0 tokens).toOption.map fun s =>
        s.sheet.rules.entries.flatMap fun e =>
          e.declared.entries.map fun d => (d.2.value.raw, d.2.value.literal?.bind Literal.text?)) =
      some [("rgb(1, 2, 3)", some "rgb(1, 2, 3)")] := by
    decide +kernel
  obtain ⟨tokens, scanned, h⟩ := Option.bind_eq_some_iff.1 computed
  obtain ⟨s, accepted, values⟩ := Option.map_eq_some_iff.1 h
  obtain ⟨e, entry, inside⟩ : ∃ e ∈ s.sheet.rules.entries,
      ("rgb(1, 2, 3)", some "rgb(1, 2, 3)") ∈
        e.declared.entries.map fun d => (d.2.value.raw, d.2.value.literal?.bind Literal.text?) := by
    refine List.mem_flatMap.1 ?_
    rw [values]
    exact List.mem_cons_self
  obtain ⟨d, declared, shown⟩ := List.mem_map.1 inside
  obtain ⟨raw, found⟩ := Prod.mk.inj shown
  obtain ⟨literal, here, text⟩ := Option.bind_eq_some_iff.1 found
  have content : d.2.value.content = .literal (.text "rgb(1, 2, 3)") := by
    rw [Value.literal?_eq_some.1 here, Literal.text?_eq_some.1 text]
  -- The text alone is the call of a color.
  have again : ((Token.scan "rgb(1, 2, 3)" none).toOption.bind fun read =>
      (Literal.ofTokens read).color?).isSome = true := by
    decide +kernel
  obtain ⟨color, computed'⟩ := Option.isSome_iff_exists.1 again
  obtain ⟨read, rescanned, found'⟩ := Option.bind_eq_some_iff.1 computed'
  have colored := Literal.color?_eq_some.1 found'
  refine ⟨tokens, read, s, d.2.value, color, eq_ok_of_toOption scanned, eq_ok_of_toOption accepted,
    .inl ⟨e, entry, d, declared, rfl⟩, raw, content, ?_, colored, ?_⟩
  · rw [raw]
    exact eq_ok_of_toOption rescanned
  · rw [content, colored]
    intro same
    cases same

end Builder

end ViewStyle
