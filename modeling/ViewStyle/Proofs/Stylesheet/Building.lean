/-
What is read from the tokens of a stylesheet is what the stylesheet stands for, and nothing is read
if the name of some property ends like a path that goes on. A property that is written as a path of
names is one of a draft as well, and is read as such.
-/

import ViewStyle.Proofs.Sequence
import ViewStyle.Proofs.Stylesheet.Draft
import ViewStyle.Proofs.Stylesheet.Listed
import ViewStyle.Proofs.Stylesheet.Written
import ViewStyle.Token.Scan

set_option autoImplicit false

namespace ViewStyle

open Builder (State)
open Text (Span)

namespace Sheet

open Outline (Enclosed)

def Phrase.draft (value : Phrase) : Draft.Phrase := ⟨value.tokens, value.grouped.unbroken⟩

def Property.effect (registry : Registry) (selectors : List Selector) (p : Property) (s : State) :
    Option State :=
  if ∀ name ∈ p.names, ProperName name then
    (s.evaluate registry p.value.tokens p.important).map fun (_, value, s) =>
      s.declare selectors p.path value
  else none

def reading (registry : Registry) : Outline.Semantics State Property Phrase where
  definitions := State.definitions
  opened := State.introduceAll
  declare s selectors p := p.effect registry selectors s
  define s definition := Draft.define registry s (definition.1, definition.2.draft)

def enclosed : Outline.Spelling Property Phrase := { spelling with admits := Enclosed }

private theorem grouped_mark {important : Bool} {mark : List Token}
    (h : WrittenMark important mark) : Grouped true mark := by
  cases h with
  | absent => exact .nil
  | important word span span' spaced spaced' _ =>
      exact .token rfl rfl (fun _ => rfl) (.token rfl rfl (fun _ => rfl) .nil)

private theorem WrittenPath.names_ne {names : List String} {tokens : List Token}
    (h : WrittenPath names tokens) : names ≠ [] := by
  cases h <;> exact List.cons_ne_nil _ _

private theorem WrittenPath.no_colon {names : List String} {tokens : List Token}
    (h : WrittenPath names tokens) : .punct .colon ∉ tokens.map (·.kind) := by
  induction h with
  | last => simp
  | dot _ _ _ _ _ _ ih => simpa using ih

end Sheet

namespace Builder

open Sheet (Meaning ProperName WrittenPath WrittenMark)

private theorem awaitsName_append {key : List Char} (awaits : awaitsName key = true)
    (cs : List Char) : awaitsName (key ++ cs) = awaitsName cs := by
  cases cs with
  | nil =>
      rw [List.append_nil, awaits]
      rfl
  | cons c cs =>
      have nonempty : (key ++ c :: cs).isEmpty = false := by simp
      rw [awaitsName, awaitsName, nonempty, List.getLast?_append, List.getLast?_cons,
        Option.some_or]
      rfl

private theorem awaitsName_toList {name : String} :
    awaitsName name.toList = true ↔ ¬ProperName name := by
  by_cases empty : name = "" <;> simp [awaitsName, ProperName, empty]

private theorem awaitsName_dot (key : List Char) : awaitsName (key ++ ['.']) = true := by
  simp [awaitsName]

private theorem spelled_of_written {names : List String} {tokens : List Token}
    (written : WrittenPath names tokens) {path : List Char} (awaits : awaitsName path = true) :
    Draft.spelled path (tokens.map (·.kind)) =
      if ∀ name ∈ names, ProperName name then some (path ++ (".".intercalate names).toList)
      else none := by
  induction written generalizing path with
  | last name span spaced =>
      rw [List.map_singleton, Draft.spelled, if_pos awaits, Draft.spelled,
        awaitsName_append awaits, String.intercalate_singleton]
      by_cases proper : ProperName name <;> simp [awaitsName_toList, proper]
  | @dot name span span' spaced spaced' names tokens written ih =>
      have whole : path ++ (".".intercalate (name :: names)).toList =
          path ++ name.toList ++ ['.'] ++ (".".intercalate names).toList := by
        rw [String.intercalate_cons_of_ne_nil written.names_ne]
        simp
      rw [List.map_cons, List.map_cons, Draft.spelled, if_pos awaits, Draft.spelled,
        awaitsName_append awaits, ih (awaitsName_dot (path ++ name.toList)), whole]
      by_cases proper : ProperName name <;> simp [awaitsName_toList, proper]

private theorem takeImportance_of_unmarked {tokens : List Token} (unmarked : ¬Sheet.Marked tokens) :
    takeImportance tokens = (tokens, false) := by
  unfold takeImportance
  split
  · rename_i word span spaced span' spaced' value reversed
    split
    · rename_i spells
      refine absurd ⟨value.reverse, ⟨.punct .bang, span', spaced'⟩, ⟨.ident word, span, spaced⟩,
        word, ?_, rfl, rfl, spells⟩ unmarked
      rw [← List.reverse_reverse tokens, reversed]
      simp
    · rfl
  · rfl

private theorem takeImportance_of_written {value mark : List Token} (unmarked : ¬Sheet.Marked value)
    {important : Bool} (written : WrittenMark important mark) :
    takeImportance (value ++ mark) = (value, important) := by
  cases written with
  | absent => rw [List.append_nil, takeImportance_of_unmarked unmarked]
  | important word span span' spaced spaced' spells =>
      simp [takeImportance, spells]

private theorem exists_draft {p : Sheet.Property} {tokens : List Token}
    (written : p.Written tokens) :
    ∃ d : Draft.Property, d.Written tokens ∧
      ∀ registry selectors s, d.effect registry selectors s = p.effect registry selectors s := by
  obtain @⟨path, mark, span, spaced, path_written, mark_written⟩ := written
  have path_spelled := spelled_of_written path_written (show awaitsName [] = true from rfl)
  have no_colon := path_written.no_colon
  obtain ⟨name, span', spaced', others, rfl⟩ := path_written.exists_cons
  have whole : Grouped true (p.value.tokens ++ mark) :=
    p.value.grouped.append (Sheet.grouped_mark mark_written)
  have named : .punct .colon ∉ others.map (·.kind) := by
    rw [List.map_cons, List.mem_cons, not_or] at no_colon
    exact no_colon.2
  let d : Draft.Property := ⟨name, others.map (·.kind), ⟨_, whole.unbroken⟩, named⟩
  refine ⟨d, @Draft.Property.Written.intro d (⟨.ident name, span', spaced'⟩ :: others) span spaced
    rfl, fun registry selectors s => ?_⟩
  have path_eq : d.path? =
      if ∀ name ∈ p.names, ProperName name then some p.path else none := by
    show (Draft.spelled [] _).map String.ofList = _
    rw [show d.key = (⟨.ident name, span', spaced'⟩ :: others).map (·.kind) from rfl, path_spelled]
    split
    · rw [Option.map_some, List.nil_append, String.ofList_toList, Sheet.Property.path]
    · rfl
  rw [Draft.Property.effect, Sheet.Property.effect, path_eq,
    takeImportance_of_written p.unmarked mark_written]
  split <;> rfl

private theorem reads_sheet (registry : Registry) :
    Reads registry Sheet.enclosed (Sheet.reading registry) where
  definitions := rfl
  opened := rfl
  enclosed _ enclosed := enclosed
  named := by
    rintro p _ @⟨path, mark, span, spaced, path_written, -⟩
    obtain ⟨name, span', spaced', others, rfl⟩ := path_written.exists_cons
    exact ⟨_, _, _, _, rfl⟩
  declaration last p tokens written s selectors rest ends := by
    obtain ⟨d, d_written, effect_eq⟩ := exists_draft written
    rw [toOption_declaration last d_written s selectors ends, effect_eq]
    rfl
  definition last name value _ assigns s _ ends :=
    toOption_definition last s name value.draft assigns ends

end Builder

namespace Sheet

open Outline (Enclosed Head Restriction expand)

variable {registry : Registry}

private theorem enclosed_of_condition {definitions : Outline.Definitions}
    (neutral : definitions.Neutral) {r : Restriction} {c : Option Condition}
    (h : r.condition definitions = some c) : Enclosed r := by
  obtain ⟨conditions, each, -⟩ := Option.map_eq_some_iff.1 h
  intro group member
  obtain ⟨c, meant⟩ := isSome_of_mapM each group member
  obtain ⟨closed, inner⟩ := Outline.closed_of_condition neutral meant
  exact unbroken_of_depthThrough inner closed

private theorem enclosed_body {body : Body} {tokens : List Token}
    (written : body.Written spelling tokens) {selectors : List Selector} {m m' : Meaning}
    (sound : m.Sound) (known : ∀ s ∈ selectors, s ∈ m.selectors)
    (meant : body.effect (semantics registry) selectors m = some m') :
    body.Written enclosed tokens := by
  induction written generalizing selectors m m' with
  | done => exact .done
  | stray span spaced _ ih => exact .stray span spaced (ih sound known meant)
  | declare written _ separated ih =>
      obtain ⟨m₁, declared, meant⟩ := Option.bind_eq_some_iff.1 meant
      obtain ⟨sound₁, grown⟩ := sound.declare known declared
      exact .declare written (ih sound₁ (fun s member => grown s (known s member)) meant) separated
  | nest span span' span'' spaced spaced' spaced'' _ narrowed _ _ ih_inside ih_next =>
      obtain ⟨nested, refined, meant⟩ := Option.bind_eq_some_iff.1 meant
      obtain ⟨m₁, meant_inside, meant⟩ := Option.bind_eq_some_iff.1 meant
      obtain ⟨condition, found, -⟩ := Option.bind_eq_some_iff.1 refined
      have known_inside : ∀ s ∈ nested, s ∈ (m.opened nested).selectors :=
        fun s member => m.mem_opened member
      obtain ⟨sound₁, grown⟩ := sound_body (sound.opened nested) known_inside meant_inside
      have known₁ : ∀ s ∈ selectors, s ∈ m₁.selectors :=
        fun s member => grown s (m.extends_opened nested s (known s member))
      exact .nest span span' span'' spaced spaced' spaced''
        (enclosed_of_condition sound.neutral found) narrowed
        (ih_inside (sound.opened nested) known_inside meant_inside) (ih_next sound₁ known₁ meant)

private theorem enclosed_heads {definitions : Outline.Definitions} (neutral : definitions.Neutral)
    {heads : List Head} {selectors : List Selector}
    (h : heads.mapM (Head.selector definitions) = some selectors) :
    ∀ head ∈ heads, Enclosed head.restriction := by
  intro head member
  obtain ⟨selector, meant⟩ := isSome_of_mapM h head member
  obtain ⟨condition, found, -⟩ := Option.map_eq_some_iff.1 meant
  exact enclosed_of_condition neutral found

private theorem sound_block {block : Block} {m m' : Meaning} (sound : m.Sound)
    (meant : block.effect (semantics registry) m = some m') : m'.Sound := by
  cases block with
  | globals definitions => exact sound.foldlM_define meant
  | rules first others body =>
      obtain ⟨selectors, -, meant⟩ := Option.bind_eq_some_iff.1 meant
      exact (sound_body (sound.opened selectors) (fun s member => m.mem_opened member) meant).1

private theorem enclosed_block {block : Block} {tokens : List Token}
    (written : block.Written spelling tokens) {m m' : Meaning} (sound : m.Sound) (meant : block.effect (semantics registry) m = some m') :
    block.Written enclosed tokens := by
  cases written with
  | globals span span' span'' spaced spaced' spaced'' spells inside =>
      exact .globals span span' span'' spaced spaced' spaced'' spells inside
  | rules span span' spaced spaced' _ heads inside =>
      obtain ⟨selectors, found, meant⟩ := Option.bind_eq_some_iff.1 meant
      have known : ∀ s ∈ selectors, s ∈ (m.opened selectors).selectors :=
        fun s member => m.mem_opened member
      exact .rules span span' spaced spaced' (enclosed_heads sound.neutral found) heads
        (enclosed_body inside (sound.opened selectors) known meant)

private theorem enclosed_written {blocks : List Block} {tokens : List Token}
    (written : Written blocks tokens) {m m' : Meaning} (sound : m.Sound)
    (meant : blocks.foldlM (Outline.Block.effect (semantics registry)) m = some m') :
    Outline.Written enclosed blocks tokens := by
  induction written generalizing m with
  | nil => exact .nil
  | stray span spaced _ ih => exact .stray span spaced (ih sound meant)
  | block written _ ih =>
      rw [List.foldlM_cons] at meant
      obtain ⟨m₁, here, there⟩ := Option.bind_eq_some_iff.1 meant
      exact .block (enclosed_block written sound here) (ih (sound_block sound here) there)

private theorem toOption_value (s : State) (tokens : List Token) (important : Bool) :
    (s.value registry tokens important).toOption =
      (valueOf registry tokens important s.serial).map fun (value, serial) =>
        (value, { s with serial }) := by
  unfold State.value valueOf
  dsimp only
  cases registry.claimant? (Token.render tokens) with
  | none => rfl
  | some plugin =>
      dsimp only
      cases plugin.read (Token.render tokens) s.serial <;> rfl

private theorem Phrase.evaluate {m : Meaning} (phrase : Phrase) {important : Bool}
    {expanded : List Token} (expands : expand m.definitions phrase.tokens = some expanded)
    {value : Value} {serial : Nat}
    (reads : valueOf registry expanded important m.serial = some (value, serial)) :
    m.state.evaluate registry phrase.tokens important =
      some (expanded, value, { m.state with serial }) := by
  have nonempty : phrase.tokens.isEmpty = false := List.isEmpty_eq_false_iff.2 phrase.nonempty
  have substituted : (m.state.substitute phrase.tokens).toOption = some expanded :=
    (Builder.toOption_substitute _ _).trans expands
  have valued : (m.state.value registry expanded important).toOption =
      some (value, { m.state with serial }) := by
    rw [toOption_value, show m.state.serial = m.serial from rfl, reads]
    rfl
  rw [State.evaluate, nonempty, if_neg Bool.false_ne_true, substituted, Option.bind_some, valued]
  rfl

private theorem effect_declare {m m' : Meaning} {selectors : List Selector}
    (known : ∀ s ∈ selectors, s ∈ m.selectors) {p : Property}
    (meant : m.declare registry selectors p = some m') :
    p.effect registry selectors m.state =
      if ∀ name ∈ p.names, ProperName name then some m'.state else none := by
  obtain ⟨expanded, value, serial, expands, reads, rfl⟩ := Meaning.declare_eq_some meant
  rw [Property.effect, p.value.evaluate expands reads, Meaning.state_declared known]
  rfl

private theorem effect_define {m m' : Meaning} {definition : String × Phrase}
    (meant : m.define registry definition = some m') :
    (reading registry).define m.state definition = some m'.state := by
  obtain ⟨name, phrase⟩ := definition
  obtain ⟨expanded, value, serial, expands, reads, rfl⟩ := Meaning.define_eq_some meant
  show (m.state.evaluate registry phrase.tokens false).map _ = _
  rw [phrase.evaluate expands reads]
  rfl

private theorem effect_definitions {definitions : List (String × Phrase)} {m m' : Meaning}
    (meant : definitions.foldlM (Meaning.define registry) m = some m') :
    definitions.foldlM (reading registry).define m.state = some m'.state := by
  induction definitions generalizing m with
  | nil =>
      cases meant
      rfl
  | cons definition rest ih =>
      rw [List.foldlM_cons] at meant ⊢
      obtain ⟨m₁, here, there⟩ := Option.bind_eq_some_iff.1 meant
      rw [effect_define here]
      exact ih there

private theorem effect_body {body : Body} {selectors : List Selector} {m m' : Meaning}
    (sound : m.Sound) (known : ∀ s ∈ selectors, s ∈ m.selectors)
    (meant : body.effect (semantics registry) selectors m = some m') :
    body.effect (reading registry) selectors m.state =
      if body.Proper then some m'.state else none := by
  induction body generalizing selectors m m' with
  | done =>
      cases meant
      rfl
  | declare property next ih =>
      obtain ⟨m₁, declared, meant⟩ := Option.bind_eq_some_iff.1 meant
      obtain ⟨sound₁, grown⟩ := sound.declare known declared
      have here : (reading registry).declare m.state selectors property = _ :=
        effect_declare known declared
      have there := ih sound₁ (fun s member => grown s (known s member)) meant
      rw [Outline.Body.effect, here]
      by_cases proper : ∀ name ∈ property.names, ProperName name
      · rw [if_pos proper, Option.bind_some, there]
        exact if_congr (and_iff_right proper).symm rfl rfl
      · rw [if_neg proper, if_neg fun both => proper both.1]
        rfl
  | nest restriction inside next ih_inside ih_next =>
      obtain ⟨nested, refined, meant⟩ := Option.bind_eq_some_iff.1 meant
      obtain ⟨m₁, meant_inside, meant⟩ := Option.bind_eq_some_iff.1 meant
      have known_inside : ∀ s ∈ nested, s ∈ (m.opened nested).selectors :=
        fun s member => m.mem_opened member
      obtain ⟨sound₁, grown⟩ := sound_body (sound.opened nested) known_inside meant_inside
      have known₁ : ∀ s ∈ selectors, s ∈ m₁.selectors :=
        fun s member => grown s (m.extends_opened nested s (known s member))
      have within := ih_inside (sound.opened nested) known_inside meant_inside
      have behind := ih_next sound₁ known₁ meant
      have narrowed :
          restriction.refine ((reading registry).definitions m.state) selectors = some nested :=
        refined
      have started : (reading registry).opened m.state nested = (m.opened nested).state :=
        (Meaning.state_opened sound nested).symm
      rw [Outline.Body.effect, narrowed, Option.bind_some, started, within]
      by_cases proper : Body.Proper inside
      · rw [if_pos proper, Option.bind_some, behind]
        exact if_congr (and_iff_right proper).symm rfl rfl
      · rw [if_neg proper, if_neg fun both => proper both.1]
        rfl

private theorem effect_block {block : Block} {m m' : Meaning} (sound : m.Sound)
    (meant : block.effect (semantics registry) m = some m') :
    block.effect (reading registry) m.state = if block.Proper then some m'.state else none := by
  cases block with
  | globals definitions => exact effect_definitions meant
  | rules first others body =>
      obtain ⟨selectors, found, meant⟩ := Option.bind_eq_some_iff.1 meant
      have heads : (first :: others).mapM (Head.selector ((reading registry).definitions m.state)) =
          some selectors := found
      have started : (reading registry).opened m.state selectors = (m.opened selectors).state :=
        (Meaning.state_opened sound selectors).symm
      rw [Outline.Block.effect, heads, Option.bind_some, started]
      exact effect_body (sound.opened selectors) (fun s member => m.mem_opened member) meant

private theorem effect_blocks {blocks : List Block} {m m' : Meaning} (sound : m.Sound)
    (meant : blocks.foldlM (Outline.Block.effect (semantics registry)) m = some m') :
    blocks.foldlM (Outline.Block.effect (reading registry)) m.state =
      if ∀ block ∈ blocks, block.Proper then some m'.state else none := by
  induction blocks generalizing m with
  | nil =>
      cases meant
      simp
  | cons block rest ih =>
      rw [List.foldlM_cons] at meant ⊢
      obtain ⟨m₁, here, there⟩ := Option.bind_eq_some_iff.1 meant
      have behind := ih (sound_block sound here) there
      rw [effect_block sound here]
      by_cases proper : block.Proper
      · simpa [proper] using behind
      · simp [proper]

end Sheet

namespace Builder

open Sheet (Meaning)

private theorem toOption_build_of_meaning {registry : Registry} {serial : Nat}
    {blocks : List Sheet.Block} {m : Meaning} {tokens : List Token}
    (meant : Sheet.meaning registry serial blocks = some m)
    (written : Sheet.Written blocks tokens) :
    (build registry serial tokens).toOption =
      if ∀ block ∈ blocks, block.Proper then some m.state else none := by
  have sound := Meaning.sound_start serial
  rw [toOption_build (reads_sheet registry) (Sheet.enclosed_written written sound meant)]
  exact Sheet.effect_blocks sound meant

/-- From the tokens that write a stylesheet its table and its variables are read, with declarations
numbered in their order, if and only if all names in the paths of its properties are proper. -/
theorem build_of_written {registry : Registry} {serial : Nat} {blocks : List Sheet.Block}
    {m : Meaning} {tokens : List Token} (meant : Sheet.meaning registry serial blocks = some m)
    (written : Sheet.Written blocks tokens) :
    ((∀ block ∈ blocks, block.Proper) →
      build registry serial tokens = .ok ⟨m.stylesheet, m.definitions, m.serial⟩) ∧
    ((¬∀ block ∈ blocks, block.Proper) → ∃ e, build registry serial tokens = .error e) := by
  have read := toOption_build_of_meaning meant written
  refine ⟨fun proper => ?_, fun improper => ?_⟩
  · rw [if_pos proper] at read
    exact eq_ok_of_toOption read
  · rw [if_neg improper] at read
    exact exists_error_of_toOption read

/-- A variable, an important declaration, and a block for those views that carry a trait tag. -/
theorem build_of_written_nested : ∃ (blocks : List Sheet.Block) (tokens : List Token)
    (m : Meaning),
    Token.scan "@global \x7b @c: red \x7d .A \x7b x: @c !important; &:t \x7b y: b; \x7d \x7d" none =
        .ok tokens ∧
      Sheet.meaning .builtins 0 blocks = some m ∧ Sheet.Written blocks tokens ∧
        build .builtins 0 tokens = .ok ⟨m.stylesheet, m.definitions, m.serial⟩ := by
  obtain ⟨blocks, tokens, scanned, meant, written, proper⟩ :
      ∃ (blocks : List Sheet.Block) (tokens : List Token),
        Token.scan "@global \x7b @c: red \x7d .A \x7b x: @c !important; &:t \x7b y: b; \x7d \x7d" none =
            .ok tokens ∧
          (Sheet.meaning .builtins 0 blocks).isSome = true ∧ Sheet.Written blocks tokens ∧
            ∀ block ∈ blocks, block.Proper :=
    ⟨[.globals [("c", .single ⟨.ident "red", ⟨none, ⟨1, 15⟩⟩, true⟩ rfl rfl rfl)],
        .rules ⟨.className "A", ⟨[], none⟩⟩ []
          (.declare ⟨["x"], List.cons_ne_nil _ _,
              .single ⟨.atWord "c", ⟨none, ⟨1, 29⟩⟩, true⟩ rfl rfl rfl,
              Sheet.not_marked_singleton _, true⟩
            (.nest ⟨[], some "t"⟩
              (.declare ⟨["y"], List.cons_ne_nil _ _,
                  .single ⟨.ident "b", ⟨none, ⟨1, 53⟩⟩, true⟩ rfl rfl rfl,
                  Sheet.not_marked_singleton _, false⟩
                .done)
              .done))],
      _, by decide +kernel, by decide +kernel,
      .block
        (@Outline.Block.Written.globals _ _ _ "global" _ _ ⟨none, ⟨1, 1⟩⟩ ⟨none, ⟨1, 9⟩⟩
          ⟨none, ⟨1, 19⟩⟩ false true true (by decide +kernel)
          (.define "c" _ ⟨.punct .colon, ⟨none, ⟨1, 13⟩⟩, false⟩ ⟨none, ⟨1, 11⟩⟩ true (.inr rfl) .nil
            (.inl rfl)))
        (.block (.rules ⟨none, ⟨1, 24⟩⟩ ⟨none, ⟨1, 58⟩⟩ true true (fun _ _ => trivial)
          (.last (.intro (.dot "A" ⟨none, ⟨1, 21⟩⟩ ⟨none, ⟨1, 22⟩⟩ true) (.intro .nil .absent)))
          (.declare
            (.intro ⟨none, ⟨1, 27⟩⟩ false (.last "x" ⟨none, ⟨1, 26⟩⟩ true)
              (.important "important" ⟨none, ⟨1, 32⟩⟩ ⟨none, ⟨1, 33⟩⟩ true false
                (by decide +kernel)))
            (.stray ⟨none, ⟨1, 42⟩⟩ false
              (.nest ⟨none, ⟨1, 44⟩⟩ ⟨none, ⟨1, 48⟩⟩ ⟨none, ⟨1, 56⟩⟩ true true true trivial
                (.intro .nil (.colon "t" ⟨none, ⟨1, 45⟩⟩ ⟨none, ⟨1, 46⟩⟩ false false))
                (.declare
                  (.intro ⟨none, ⟨1, 51⟩⟩ false (.last "y" ⟨none, ⟨1, 50⟩⟩ true) .absent)
                  (.stray ⟨none, ⟨1, 54⟩⟩ false .done) (.inr ⟨_, _, _, rfl⟩))
                .done))
            (.inr ⟨_, _, _, rfl⟩))) .nil),
      by decide⟩
  obtain ⟨m, meant⟩ := Option.isSome_iff_exists.1 meant
  exact ⟨blocks, tokens, m, scanned, meant, written, (build_of_written meant written).1 proper⟩

/-- An escaped dot at the end of a name is taken for the dot between two names. -/
theorem build_final_dot : ∃ (blocks : List Sheet.Block) (tokens : List Token) (m : Meaning)
    (e : ReadError), Token.scan ".A \x7b a\\.: b; \x7d" none = .ok tokens ∧
      Sheet.meaning .builtins 0 blocks = some m ∧ Sheet.Written blocks tokens ∧
        build .builtins 0 tokens = .error e := by
  obtain ⟨blocks, tokens, scanned, meant, written, improper⟩ :
      ∃ (blocks : List Sheet.Block) (tokens : List Token),
        Token.scan ".A \x7b a\\.: b; \x7d" none = .ok tokens ∧
          (Sheet.meaning .builtins 0 blocks).isSome = true ∧ Sheet.Written blocks tokens ∧
            ¬∀ block ∈ blocks, block.Proper :=
    ⟨[.rules ⟨.className "A", ⟨[], none⟩⟩ []
        (.declare ⟨["a."], List.cons_ne_nil _ _,
            .single ⟨.ident "b", ⟨none, ⟨1, 11⟩⟩, true⟩ rfl rfl rfl,
            Sheet.not_marked_singleton _, false⟩
          .done)],
      _, by decide +kernel, by decide +kernel,
      .block (.rules ⟨none, ⟨1, 4⟩⟩ ⟨none, ⟨1, 14⟩⟩ true true (fun _ _ => trivial)
        (.last (.intro (.dot "A" ⟨none, ⟨1, 1⟩⟩ ⟨none, ⟨1, 2⟩⟩ false) (.intro .nil .absent)))
        (.declare (.intro ⟨none, ⟨1, 9⟩⟩ false (.last "a." ⟨none, ⟨1, 6⟩⟩ true) .absent)
          (.stray ⟨none, ⟨1, 12⟩⟩ false .done) (.inr ⟨_, _, _, rfl⟩))) .nil,
      by decide⟩
  obtain ⟨m, meant⟩ := Option.isSome_iff_exists.1 meant
  have read := toOption_build_of_meaning meant written
  rw [if_neg improper] at read
  obtain ⟨e, fails⟩ := exists_error_of_toOption read
  exact ⟨blocks, tokens, m, e, scanned, meant, written, fails⟩

end Builder

end ViewStyle
