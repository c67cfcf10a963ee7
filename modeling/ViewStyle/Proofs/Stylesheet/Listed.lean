/-
The table of a stylesheet grows as its events do. Selectors are added when their block starts, and
declarations are for selectors that were added before.
-/

import ViewStyle.Proofs.Stylesheet.Meaning

set_option autoImplicit false

namespace ViewStyle

namespace OrderedMap

variable {α : Type}

private theorem insertEntry_insertEntry (key : String) (value : α) (entries : List (String × α)) :
    insertEntry key value (insertEntry key value entries) = insertEntry key value entries := by
  induction entries with
  | nil => rw [insertEntry, insertEntry, if_neg (String.lt_irrefl key), if_pos rfl]
  | cons e rest ih =>
      obtain ⟨k, v⟩ := e
      rw [insertEntry]
      split
      · rw [insertEntry, if_neg (String.lt_irrefl key), if_pos rfl]
      · split
        · rw [insertEntry, if_neg (String.lt_irrefl key), if_pos rfl]
        · rename_i above other
          rw [insertEntry, if_neg above, if_neg other, ih]

private theorem insert_insert (m : OrderedMap α) (key : String) (value : α) :
    (m.insert key value).insert key value = m.insert key value := by
  unfold insert
  congr 1
  exact insertEntry_insertEntry key value m.entries

end OrderedMap

namespace Sheet

open Outline (expand depthThrough_expand)

theorem firsts_snoc (selectors : List Selector) (s : Selector) :
    firsts (selectors ++ [s]) =
      if selectors.any (·.same s) then firsts selectors else firsts selectors ++ [s] := by
  induction selectors with
  | nil => rfl
  | cons first rest ih =>
      rw [List.cons_append, firsts, ih, List.any_cons]
      by_cases known : rest.any (·.same s) = true
      · simp [known, firsts]
      · by_cases same : first.same s = true
        · simp [known, same, firsts]
        · simp [known, same, firsts]

theorem any_firsts (selectors : List Selector) (s : Selector) :
    (firsts selectors).any (·.same s) = selectors.any (·.same s) := by
  induction selectors using List.reverseRecOn with
  | nil => rfl
  | append_singleton selectors last ih =>
      rw [firsts_snoc]
      split
      · rename_i known
        rw [ih, List.any_append, List.any_cons, List.any_nil, Bool.or_false]
        by_cases same : last.same s = true
        · obtain ⟨t, member, same_t⟩ := List.any_eq_true.1 known
          have found : selectors.any (·.same s) = true :=
            List.any_eq_true.2 ⟨t, member, Selector.same_trans same_t same⟩
          rw [found, Bool.true_or]
        · rw [Bool.eq_false_iff.2 same, Bool.or_false]
      · rw [List.any_append, List.any_append, ih]

def Covers (opened : List Selector) (declarations : List Declaration) : Prop :=
  ∀ d ∈ declarations, ∀ s ∈ d.selectors, s ∈ opened

private theorem isSome_find?_table (opened : List Selector) (declarations : List Declaration)
    (s : Selector) : ((table opened declarations).find? s).isSome = opened.any (·.same s) := by
  rw [← any_firsts, Rules.find?, table, List.find?_map, Option.isSome_map, List.isSome_find?]
  rfl

private theorem settings_snoc (declarations : List Declaration) (d : Declaration) (s : Selector) :
    settings (declarations ++ [d]) s =
      if d.concerns s then
        (settings declarations s).insert d.key ⟨d.value, declarations.length + 1⟩
      else settings declarations s := by
  simp only [settings, List.zipIdx_append, List.foldl_append, List.zipIdx_cons, List.zipIdx_nil,
    List.foldl_cons, List.foldl_nil]
  rw [Nat.add_comm 1 declarations.length]

private theorem settings_eq_empty {declarations : List Declaration} {s : Selector}
    (h : ∀ d ∈ declarations, d.concerns s = false) : settings declarations s = ∅ := by
  induction declarations using List.reverseRecOn with
  | nil => rfl
  | append_singleton declarations d ih =>
      rw [settings_snoc, h d (by simp), if_neg Bool.false_ne_true]
      exact ih fun d' member => h d' (List.mem_append_left _ member)

private theorem table_snoc_selector {opened : List Selector} {declarations : List Declaration}
    (covers : Covers opened declarations) (s : Selector) :
    table (opened ++ [s]) declarations = (table opened declarations).introduce s := by
  rw [Rules.introduce, isSome_find?_table]
  by_cases known : opened.any (·.same s) = true
  · simp only [table, firsts_snoc, known, if_true]
  · have fresh : settings declarations s = ∅ := by
      refine settings_eq_empty fun d member => Bool.eq_false_iff.2 fun concerns => known ?_
      obtain ⟨t, listed, same⟩ := List.any_eq_true.1 concerns
      exact List.any_eq_true.2 ⟨t, covers d member t listed, same⟩
    simp only [table, firsts_snoc, known, Bool.false_eq_true, if_false, List.map_append,
      List.map_cons, List.map_nil, fresh]

private theorem table_append_selectors {opened : List Selector} {declarations : List Declaration}
    (covers : Covers opened declarations) (selectors : List Selector) :
    table (opened ++ selectors) declarations =
      selectors.foldl Rules.introduce (table opened declarations) := by
  induction selectors generalizing opened with
  | nil => rw [List.append_nil, List.foldl_nil]
  | cons s rest ih =>
      have covers' : Covers (opened ++ [s]) declarations := fun d member t listed =>
        List.mem_append_left _ (covers d member t listed)
      rw [List.foldl_cons, ← table_snoc_selector covers, ← ih covers', List.append_assoc,
        List.singleton_append]

def settled (t : Rules) (selectors : List Selector) (key : KeyPath) (value : Declared) : Rules :=
  { t with
    entries := t.entries.map fun e =>
      if selectors.any (·.same e.selector) then
        { e with declared := e.declared.insert key.text value }
      else e }

private theorem foldl_declare_eq_settled {t : Rules} {selectors : List Selector}
    (known : ∀ s ∈ selectors, (t.find? s).isSome = true) (key : KeyPath) (value : Value)
    (order : Nat) :
    selectors.foldl (fun t s => t.declare s key value order) t =
      settled t selectors key ⟨value, order⟩ := by
  induction selectors using List.reverseRecOn with
  | nil => simp [settled]
  | append_singleton selectors s ih =>
      have before := ih fun s' member => known s' (List.mem_append_left _ member)
      have found : ((settled t selectors key ⟨value, order⟩).find? s).isSome = true := by
        rw [← known s (by simp)]
        simp only [Rules.find?, settled, List.find?_map, Option.isSome_map, List.isSome_find?]
        congr 1
        funext e
        simp only [Function.comp_apply]
        split <;> rfl
      rw [List.foldl_append, before, List.foldl_cons, List.foldl_nil, Rules.declare,
        Rules.introduce, if_pos found]
      simp only [settled, List.map_map]
      congr 2
      funext e
      simp only [Function.comp_apply, List.any_append, List.any_cons, List.any_nil, Bool.or_false,
        s.same_comm]
      by_cases old : selectors.any (·.same e.selector) = true
      · by_cases new : e.selector.same s = true
        · simp [old, new, OrderedMap.insert_insert]
        · simp [old, new]
      · by_cases new : e.selector.same s = true
        · simp [old, new]
        · simp [old, new]

private theorem table_snoc_declaration {opened : List Selector} (declarations : List Declaration)
    {d : Declaration} (known : ∀ s ∈ d.selectors, s ∈ opened) :
    table opened (declarations ++ [d]) =
      d.selectors.foldl
        (fun t s => t.declare s (.ofText d.path) d.value (declarations.length + 1))
        (table opened declarations).nextOrder.2 := by
  rw [foldl_declare_eq_settled]
  · simp only [table, settled, Rules.nextOrder, List.map_map, List.length_append,
      List.length_singleton]
    congr 1
    refine List.map_congr_left fun s _ => ?_
    rw [settings_snoc]
    simp only [Function.comp_apply]
    show _ = if d.concerns s = true then _ else _
    split <;> rfl
  · intro s member
    show ((table opened declarations).find? s).isSome = true
    rw [isSome_find?_table]
    exact List.any_eq_true.2 ⟨s, known s member, s.same_self⟩

namespace Meaning

def state (m : Meaning) : Builder.State := ⟨m.stylesheet, m.definitions, m.serial⟩

structure Sound (m : Meaning) : Prop where
  covers : Covers m.selectors m.declarations
  neutral : m.definitions.Neutral

theorem sound_start (serial : Nat) : (start serial).Sound where
  covers := nofun
  neutral := nofun

private theorem selectors_opened (m : Meaning) (selectors : List Selector) :
    (m.opened selectors).selectors = m.selectors ++ selectors := by
  simp [Meaning.selectors, opened, Event.selectors]

private theorem declarations_opened (m : Meaning) (selectors : List Selector) :
    (m.opened selectors).declarations = m.declarations := by
  simp [declarations, opened, Event.declaration?]

theorem Sound.opened {m : Meaning} (sound : m.Sound) (selectors : List Selector) :
    (m.opened selectors).Sound where
  covers := by
    rw [selectors_opened, declarations_opened]
    exact fun d member s listed => List.mem_append_left _ (sound.covers d member s listed)
  neutral := sound.neutral

theorem state_opened {m : Meaning} (sound : m.Sound) (selectors : List Selector) :
    (m.opened selectors).state = m.state.introduceAll selectors := by
  rw [state, stylesheet, selectors_opened, declarations_opened, table_append_selectors sound.covers]
  rfl

private theorem selectors_declared (m : Meaning) (d : Declaration) (serial : Nat) :
    (m.declared d serial).selectors = m.selectors := by
  simp [Meaning.selectors, declared, Event.selectors]

private theorem declarations_declared (m : Meaning) (d : Declaration) (serial : Nat) :
    (m.declared d serial).declarations = m.declarations ++ [d] := by
  simp [declarations, declared, Event.declaration?]

theorem state_declared {m : Meaning} {d : Declaration} (known : ∀ s ∈ d.selectors, s ∈ m.selectors)
    (serial : Nat) : (m.declared d serial).state =
      { m.state with
        sheet.rules :=
          d.selectors.foldl
            (fun t s => t.declare s (.ofText d.path) d.value m.state.sheet.rules.nextOrder.1)
            m.state.sheet.rules.nextOrder.2
        serial } := by
  rw [state, stylesheet, selectors_declared, declarations_declared,
    table_snoc_declaration m.declarations known]
  rfl

theorem declare_eq_some {registry : Registry} {m m' : Meaning} {selectors : List Selector}
    {p : Property} (h : m.declare registry selectors p = some m') :
    ∃ expanded value serial, expand m.definitions p.value.tokens = some expanded ∧
      valueOf registry expanded p.important m.serial = some (value, serial) ∧
        m' = m.declared ⟨selectors, p.path, value⟩ serial := by
  obtain ⟨expanded, expands, h⟩ := Option.bind_eq_some_iff.1 h
  obtain ⟨⟨value, serial⟩, reads, rfl⟩ := Option.map_eq_some_iff.1 h
  exact ⟨expanded, value, serial, expands, reads, rfl⟩

theorem define_eq_some {registry : Registry} {m m' : Meaning} {name : String} {phrase : Phrase}
    (h : m.define registry (name, phrase) = some m') :
    ∃ expanded value serial, expand m.definitions phrase.tokens = some expanded ∧
      valueOf registry expanded false m.serial = some (value, serial) ∧
        m' = m.defined name expanded value serial := by
  obtain ⟨expanded, expands, h⟩ := Option.bind_eq_some_iff.1 h
  obtain ⟨⟨value, serial⟩, reads, rfl⟩ := Option.map_eq_some_iff.1 h
  exact ⟨expanded, value, serial, expands, reads, rfl⟩

def Extends (m m' : Meaning) : Prop := ∀ s ∈ m.selectors, s ∈ m'.selectors

theorem extends_opened (m : Meaning) (selectors : List Selector) : m.Extends (m.opened selectors) := by
  intro s member
  rw [selectors_opened]
  exact List.mem_append_left _ member

theorem mem_opened (m : Meaning) {selectors : List Selector} {s : Selector} (h : s ∈ selectors) :
    s ∈ (m.opened selectors).selectors := by
  rw [selectors_opened]
  exact List.mem_append_right _ h

theorem Sound.declare {registry : Registry} {m m' : Meaning} (sound : m.Sound)
    {selectors : List Selector} (known : ∀ s ∈ selectors, s ∈ m.selectors) {p : Property}
    (h : m.declare registry selectors p = some m') : m'.Sound ∧ m.Extends m' := by
  obtain ⟨expanded, value, serial, -, -, rfl⟩ := declare_eq_some h
  refine ⟨⟨?_, sound.neutral⟩, fun s member => ?_⟩
  · rw [selectors_declared, declarations_declared]
    intro d member s listed
    rcases List.mem_append.1 member with old | new
    · exact sound.covers d old s listed
    · rw [List.mem_singleton.1 new] at listed
      exact known s listed
  · rw [selectors_declared]
    exact member

private theorem Sound.define {registry : Registry} {m m' : Meaning} (sound : m.Sound)
    {name : String} {phrase : Phrase} (h : m.define registry (name, phrase) = some m') :
    m'.Sound ∧ m.Extends m' := by
  obtain ⟨expanded, value, serial, expands, -, rfl⟩ := define_eq_some h
  refine ⟨⟨sound.covers, ?_⟩, fun s member => member⟩
  intro name' tokens found depth
  rw [defined, OrderedMap.lookup_cons_eq_ite] at found
  split at found
  · cases found
    rw [depthThrough_expand sound.neutral expands, phrase.grouped.neutral]
  · exact sound.neutral name' tokens found depth

theorem Sound.foldlM_define {registry : Registry} {definitions : List (String × Phrase)}
    {m m' : Meaning} (sound : m.Sound)
    (h : definitions.foldlM (Meaning.define registry) m = some m') : m'.Sound := by
  induction definitions generalizing m with
  | nil =>
      cases h
      exact sound
  | cons definition rest ih =>
      rw [List.foldlM_cons] at h
      obtain ⟨m₁, defined, h⟩ := Option.bind_eq_some_iff.1 h
      exact ih (sound.define defined).1 h

end Meaning

/-- Blocks only start for selectors that are added, and declarations are for those. -/
theorem sound_body {registry : Registry} {body : Body} {selectors : List Selector} {m m' : Meaning}
    (sound : m.Sound) (known : ∀ s ∈ selectors, s ∈ m.selectors)
    (meant : body.effect (semantics registry) selectors m = some m') :
    m'.Sound ∧ m.Extends m' := by
  induction body generalizing selectors m m' with
  | done =>
      cases meant
      exact ⟨sound, fun _ member => member⟩
  | declare property next ih =>
      obtain ⟨m₁, declared, meant⟩ := Option.bind_eq_some_iff.1 meant
      obtain ⟨sound₁, grown⟩ := sound.declare known declared
      obtain ⟨sound', grown'⟩ := ih sound₁ (fun s member => grown s (known s member)) meant
      exact ⟨sound', fun s member => grown' s (grown s member)⟩
  | nest restriction inside next ih_inside ih_next =>
      obtain ⟨nested, -, meant⟩ := Option.bind_eq_some_iff.1 meant
      obtain ⟨m₁, meant_inside, meant⟩ := Option.bind_eq_some_iff.1 meant
      obtain ⟨sound₁, grown⟩ :=
        ih_inside (sound.opened nested) (fun s member => m.mem_opened member) meant_inside
      have kept : m.Extends m₁ := fun s member => grown s (m.extends_opened nested s member)
      obtain ⟨sound', grown'⟩ := ih_next sound₁ (fun s member => kept s (known s member)) meant
      exact ⟨sound', fun s member => grown' s (kept s member)⟩

end Sheet

end ViewStyle
