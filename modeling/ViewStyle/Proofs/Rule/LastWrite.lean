/-
A rule as a map from paths in normal form. Whatever is set and merged, and in whatever order, a path
in any spelling has the value of the last write to it. Since the normal form of a path is its own
normal form, a key that is read from a rule finds its entry again.
-/

import ViewStyle.Proofs.Binding.Writes
import ViewStyle.Proofs.Stylesheet.Exported

set_option autoImplicit false

namespace ViewStyle

namespace Rule

def Normal (r : Rule) : Prop := ∀ e ∈ r.entries, KeyPath.Normal e.1

/-- A change of a rule. -/
inductive Edit
  | insert (path : String) (value : Value)
  | merge (other : Rule) (normal : other.Normal)

def Edit.writes : Edit → List (String × Value)
  | .insert path value => [(path, value)]
  | .merge other _ => other.entries

def edit (r : Rule) : Edit → Rule
  | .insert path value => (r.exchange (.ofText path) value).2
  | .merge other _ => r.merge other

/-- The rule that some changes make of an empty one. -/
def edited (edits : List Edit) : Rule := edits.foldl edit ∅

/-- The writes of some changes. -/
def writesOf (edits : List Edit) : List (String × Value) := edits.flatMap Edit.writes

def LastWrite (writes : List (String × Value)) (path : String) (value : Value) : Prop :=
  ∃ earlier spelled later, writes = earlier ++ (spelled, value) :: later ∧
    KeyPath.ofText spelled = KeyPath.ofText path ∧
    ∀ w ∈ later, KeyPath.ofText w.1 ≠ KeyPath.ofText path

def write (r : Rule) (w : String × Value) : Rule := r.insert (.ofText w.1) w.2

private theorem exchange_eq (r : Rule) (path : String) (value : Value) :
    r.exchange (.ofText path) value = (r.get? path, r.write (path, value)) := by
  unfold exchange
  rw [OrderedMap.exchange_eq]
  rfl

private theorem merge_eq (r : Rule) {other : Rule} (normal : other.Normal) :
    r.merge other = other.entries.foldl write r := by
  have entries (l : List (String × Value)) (stored : ∀ e ∈ l, KeyPath.Normal e.1)
      (m : OrderedMap Value) :
      (⟨l.foldl (fun m e => m.insert e.1 e.2) m⟩ : Rule) = l.foldl write ⟨m⟩ := by
    induction l generalizing m with
    | nil => rfl
    | cons e rest ih =>
        obtain ⟨here, there⟩ := List.forall_mem_cons.1 stored
        have same : write ⟨m⟩ e = ⟨m.insert e.1 e.2⟩ := by
          unfold write insert
          rw [show (KeyPath.ofText e.1).text = e.1 from here]
        rw [List.foldl_cons, List.foldl_cons, same]
        exact ih there _
  exact entries other.entries normal r.values

private theorem edit_eq (r : Rule) (change : Edit) :
    r.edit change = change.writes.foldl write r := by
  cases change with
  | insert path value => exact congrArg Prod.snd (r.exchange_eq path value)
  | merge other normal => exact r.merge_eq normal

private theorem edited_eq (edits : List Edit) : edited edits = (writesOf edits).foldl write ∅ := by
  have run (r : Rule) : edits.foldl edit r = (writesOf edits).foldl write r := by
    induction edits generalizing r with
    | nil => rfl
    | cons change rest ih =>
        have writes : writesOf (change :: rest) = change.writes ++ writesOf rest :=
          List.flatMap_cons
        rw [List.foldl_cons, ih, edit_eq, writes, List.foldl_append]
  exact run ∅

private theorem find?_foldl_write (writes : List (String × Value)) (r : Rule) (key : String) :
    (writes.foldl write r).values.find? key =
      ((writes.reverse.find? fun w => (KeyPath.ofText w.1).text = key).map (·.2)).or
        (r.values.find? key) := by
  induction writes generalizing r with
  | nil => rfl
  | cons w rest ih =>
      have step : (r.write w).values.find? key =
          if key = (KeyPath.ofText w.1).text then some w.2 else r.values.find? key :=
        OrderedMap.find?_insert r.values _ key w.2
      -- The search comes from the end, so what the rest writes is found before this write.
      rw [List.foldl_cons, ih, step, List.reverse_cons, List.find?_append]
      by_cases here : (KeyPath.ofText w.1).text = key
      · cases rest.reverse.find? fun w => (KeyPath.ofText w.1).text = key <;> simp [here]
      · cases rest.reverse.find? fun w => (KeyPath.ofText w.1).text = key <;>
          simp [here, Ne.symm here]

private theorem find?_edited (edits : List Edit) (key : String) :
    (edited edits).values.find? key =
      ((writesOf edits).reverse.find? fun w => (KeyPath.ofText w.1).text = key).map (·.2) := by
  rw [edited_eq, find?_foldl_write]
  exact Option.or_none

private theorem lastWrite_iff {writes : List (String × Value)} {path : String} {value : Value} :
    LastWrite writes path value ↔
      (writes.reverse.find? fun w => (KeyPath.ofText w.1).text = (KeyPath.ofText path).text).map
        (·.2) = some value := by
  have same (spelled : String) : (KeyPath.ofText spelled).text = (KeyPath.ofText path).text ↔
      KeyPath.ofText spelled = KeyPath.ofText path :=
    ⟨fun equal => congrArg KeyPath.mk equal, congrArg KeyPath.text⟩
  simp only [same, Option.map_eq_some_iff, List.find?_eq_some_iff_append]
  constructor
  · rintro ⟨earlier, spelled, later, rfl, here, others⟩
    refine ⟨(spelled, value),
      ⟨decide_eq_true here, later.reverse, earlier.reverse, by simp, fun w member => ?_⟩, rfl⟩
    simpa using others w (List.mem_reverse.1 member)
  · rintro ⟨⟨spelled, value⟩, ⟨here, later, earlier, reversed, others⟩, rfl⟩
    refine ⟨earlier.reverse, spelled, later.reverse, ?_, of_decide_eq_true here,
      fun w member => ?_⟩
    · rw [← List.reverse_reverse writes, reversed]
      simp
    · simpa using others w (List.mem_reverse.1 member)

private theorem get?_of_mem {r : Rule} (normal : r.Normal) {e : String × Value}
    (member : e ∈ r.entries) : r.get? e.1 = some e.2 := by
  rw [get?, show (KeyPath.ofText e.1).text = e.1 from normal e member]
  exact OrderedMap.mem_entries.1 member

/-- A rule is the map that some writes make of an empty one. -/
structure Records (r : Rule) (writes : List (String × Value)) : Prop where
  get? : ∀ path value, r.get? path = some value ↔ LastWrite writes path value
  contains : ∀ path, r.contains path = true ↔ ∃ value, r.get? path = some value
  increasing : r.entries.Pairwise fun a b => a.1 < b.1
  keys : ∀ key, (∃ value, (key, value) ∈ r.entries) ↔
    ∃ w ∈ writes, (KeyPath.ofText w.1).text = key
  stored : ∀ e ∈ r.entries, r.get? e.1 = some e.2

private theorem mem_keys_edited (edits : List Edit) (key : String) :
    (∃ value, (key, value) ∈ (edited edits).entries) ↔
      ∃ w ∈ writesOf edits, (KeyPath.ofText w.1).text = key := by
  have listed (value : Value) : (key, value) ∈ (edited edits).entries ↔
      (edited edits).values.find? key = some value :=
    OrderedMap.mem_entries
  simp only [listed, find?_edited, ← Option.isSome_iff_exists, Option.isSome_map,
    List.find?_isSome, List.mem_reverse, decide_eq_true_eq]

private theorem normal_edited (edits : List Edit) : (edited edits).Normal := by
  rintro ⟨key, value⟩ member
  obtain ⟨w, -, rfl⟩ := (mem_keys_edited edits key).1 ⟨value, member⟩
  exact KeyPath.normal_text w.1

private theorem records_edited (edits : List Edit) : (edited edits).Records (writesOf edits) where
  get? path value := by rw [Rule.get?, find?_edited, lastWrite_iff]
  contains path := Option.isSome_iff_exists
  increasing := (edited edits).values.sorted
  keys := mem_keys_edited edits
  stored _ member := get?_of_mem (normal_edited edits) member

end Rule

private theorem Builder.normal_globals {registry : Registry} {serial : Nat} {tokens : List Token}
    {s : State} (accepted : build registry serial tokens = .ok s) : s.sheet.globals.Normal := by
  rintro ⟨key, value⟩ member
  have related := (exports_of_build accepted).values ⟨key⟩
  rw [OrderedMap.mem_entries.1 member] at related
  cases noted : s.definitions.find? (fun d => KeyPath.ofText d.1 = ⟨key⟩) with
  | none =>
      rw [noted] at related
      cases related
  | some d =>
      have same : KeyPath.ofText d.1 = ⟨key⟩ := by simpa using List.find?_some noted
      have text : (KeyPath.ofText d.1).text = key := congrArg KeyPath.text same
      exact text ▸ KeyPath.normal_text d.1

namespace Theme

variable {κ : Type} {t : Theme κ}

private theorem normal_globals_adopt {reader : Reader} {result : Except SheetError (List Token)} :
    (t.adopt (result.bind reader.build)).sheet.globals.Normal := by
  cases result with
  | error e => exact fun _ member => nomatch member
  | ok tokens =>
      show (t.adopt (reader.build tokens)).sheet.globals.Normal
      unfold Reader.build
      cases built : Builder.build reader.registry reader.serial tokens with
      | error e => exact fun _ member => nomatch member
      | ok s => exact Builder.normal_globals built

private theorem Reached.normal_globals (h : t.Reached) : t.sheet.globals.Normal := by
  induction h with
  | start config loader => exact fun _ member => nomatch member
  | perform request _ ih =>
      cases request with
      | load text => exact normal_globals_adopt
      | loadFile file place => exact normal_globals_adopt
      | reload => exact normal_globals_adopt
      | register plugin => exact ih
      | subscribe callback => exact ih
      | unsubscribe id => exact ih
  | replaceFiles loader _ ih => exact ih

private theorem Reached.normal_compute (h : t.Reached) (c : Context) : (t.compute c).all.Normal :=
  fun _ member => Cascade.normal_of_find?_compute h.normal t.sheet.globals c
    (.inl (OrderedMap.mem_entries.1 member))

end Theme

private theorem Binding.mem_leftover_iff {b : Binding} (normal : b.NormalKeys) (key : String) :
    key ∈ b.leftover ↔
      key ∈ b.written.keys ∧ ∀ value, (key, value) ∉ b.computed.all.entries := by
  have listed (value : Value) : (key, value) ∈ b.computed.all.entries ↔
      b.computed.all.values.find? key = some value :=
    OrderedMap.mem_entries
  have written : key ∈ b.written.keys ↔ (b.written.find? key).isSome := by
    simp [OrderedMap.keys, OrderedMap.mem_entries, Option.isSome_iff_exists]
  rw [mem_leftover normal, written, Option.eq_none_iff_forall_ne_some]
  simp only [listed, ne_eq]

namespace Rule

/-- Paths and rules: the normal form of a path is its own normal form, has as many names and no
hyphen; a rule is a map from normal forms, in which every write counts until the next one to the
same path; and so variables, computed styles and bindings find what is stored when they ask for the
keys that they were given. -/
theorem lookup_edited {κ : Type} (edits : List Edit) (path : String) (value : Value)
    {theme : Theme κ} (reached : theme.Reached) (c : Context) {b : Binding} (bound : b.Reached) :
    (KeyPath.ofText (KeyPath.ofText path).text = KeyPath.ofText path ∧
      (KeyPath.ofText path).segments.length = (KeyPath.names path).length ∧
      '-' ∉ (KeyPath.ofText path).text.toList) ∧
    ((edited edits).Records (writesOf edits) ∧
      (edited edits).exchange (.ofText path) value =
        ((edited edits).get? path, edited (edits ++ [.insert path value]))) ∧
    (∀ e ∈ theme.sheet.globals.entries, theme.valueOf? e.1 = some e.2) ∧
    (∀ e ∈ (theme.compute c).all.entries, (theme.compute c).get? e.1 = some e.2) ∧
    ∀ key, key ∈ b.leftover ↔
      key ∈ b.written.keys ∧ ∀ value, (key, value) ∉ b.computed.all.entries := by
  refine ⟨⟨KeyPath.ofText_text path, ?_, ?_⟩, ⟨records_edited edits, ?_⟩, ?_, ?_, ?_⟩
  · rw [KeyPath.segments, KeyPath.names_ofText, List.length_map]
  · rw [KeyPath.ofText, String.toList_ofList]
    exact KeyPath.hyphen_notMem_withoutHyphens false false path.toList
  · rw [exchange_eq, edited, edited, List.foldl_append, List.foldl_cons, List.foldl_nil, edit,
      exchange_eq]
  · exact fun e member => get?_of_mem reached.normal_globals member
  · exact fun e member => get?_of_mem (reached.normal_compute c) member
  · exact Binding.mem_leftover_iff bound.aligned.2

set_option maxRecDepth 20000 in
/-- Two spellings of a path, and a variable and a property with hyphens in their names in a
session. -/
theorem lookup_edited_session :
    let edits : List Edit :=
      [.insert "edge-width" (.ofLiteral (.bool true)),
        .insert "edgeWidth" (.ofLiteral (.bool false))]
    let label : PropertyList :=
      ⟨"A", (∅ : OrderedMap _).insert "cornerRadius" (some (.literal (.text "plain")))⟩
    let s : Session Unit PropertyList := (Session.start {} Bundles.empty.load true {} label).run
      [.ask (.load "@global { @edge-width = 2; } .A { corner-radius: 4; }"), .refresh]
    let c : Context := ⟨"A", none, {}⟩
    (s.theme.Reached ∧ s.binding.Reached) ∧
      (s.theme.sheet.globals.entries.map (·.1), (s.theme.compute c).all.entries.map (·.1)) =
        (["edgeWidth"], ["cornerRadius"]) ∧
      ((edited edits).Records (writesOf edits) ∧
        (edited edits).exchange (.ofText "-edge--width") (.ofLiteral (.bool true)) =
          ((edited edits).get? "-edge--width",
            edited (edits ++ [.insert "-edge--width" (.ofLiteral (.bool true))]))) ∧
      (∀ e ∈ s.theme.sheet.globals.entries, s.theme.valueOf? e.1 = some e.2) ∧
      (∀ e ∈ (s.theme.compute c).all.entries, (s.theme.compute c).get? e.1 = some e.2) ∧
      ∀ key, key ∈ s.binding.leftover ↔
        key ∈ s.binding.written.keys ∧ ∀ value, (key, value) ∉ s.binding.computed.all.entries := by
  intro edits label s c
  have reached : s.theme.Reached ∧ s.binding.Reached :=
    Session.reached_run {} _ true {} label _
  have plain : Token.isPlain
      "@global { @edge-width = 2; } .A { corner-radius: 4; }" = true := by
    decide +kernel
  have keys : (s.theme.sheet.globals.entries.map (·.1),
      (s.theme.compute c).all.entries.map (·.1)) = (["edgeWidth"], ["cornerRadius"]) := by
    simp only [s, Session.run, List.foldl_cons, List.foldl_nil, Session.step_load _ plain]
    decide +kernel
  exact ⟨reached, keys,
    (lookup_edited edits "-edge--width" (.ofLiteral (.bool true)) reached.1 c reached.2).2⟩

end Rule

end ViewStyle
