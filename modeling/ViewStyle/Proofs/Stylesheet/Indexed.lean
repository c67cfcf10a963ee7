/-
The table of a stylesheet as it is stored. A row keeps the values of a selector and, apart from
them, the number of the declaration that set each one; an index tells the row of a selector in any
spelling. Whatever is done to a table from the empty one on, both stores and the index stay in step:
the table is one list of entries, and all that can be asked of it depends on what was done last.
-/

import Std.Data.HashMap.Lemmas
import ViewStyle.Proofs.Stylesheet.Listed

set_option autoImplicit false

namespace ViewStyle

namespace OrderedMap

variable {α β : Type}

private theorem insertEntry_map (f : α → β) (key : String) (value : α)
    (entries : List (String × α)) :
    (insertEntry key value entries).map (fun e => (e.1, f e.2)) =
      insertEntry key (f value) (entries.map fun e => (e.1, f e.2)) := by
  induction entries with
  | nil => rfl
  | cons e rest ih =>
      rw [List.map_cons, insertEntry, insertEntry]
      split
      · rfl
      · split
        · rfl
        · rw [List.map_cons, ih]

private theorem mapValues_insert (f : α → β) (m : OrderedMap α) (key : String) (value : α) :
    (m.insert key value).mapValues f = (m.mapValues f).insert key (f value) := by
  unfold mapValues insert
  congr 1
  exact insertEntry_map f key value m.entries

@[simp] private theorem keys_mapValues (f : α → β) (m : OrderedMap α) :
    (m.mapValues f).keys = m.keys := by
  rw [keys, keys, mapValues, List.map_map]
  rfl

private theorem find?_mapValues (f : α → β) (m : OrderedMap α) (key : String) :
    (m.mapValues f).find? key = (m.find? key).map f := by
  show (m.entries.map _).lookup key = (m.entries.lookup key).map f
  induction m.entries with
  | nil => rfl
  | cons e rest ih =>
      rw [List.map_cons, lookup_cons_eq_ite, lookup_cons_eq_ite, ih]
      split <;> rfl

end OrderedMap

deriving instance Hashable for Target, Selector.Identity

namespace Selector

instance : BEq Selector := ⟨same⟩

instance : EquivBEq Selector where
  rfl := same_self _
  symm {s t} h := (same_comm t s).trans h
  trans := same_trans

instance : Hashable Selector := ⟨fun s => hash s.identity⟩

instance : LawfulHashable Selector where
  hash_eq s t h := by
    show hash s.identity = hash t.identity
    rw [same_iff.1 h]

end Selector

structure Row where
  selector : Selector
  rule : Rule
  numbers : OrderedMap Nat

def Row.set (row : Row) (key : KeyPath) (value : Value) (order : Nat) : Row :=
  { row with rule := row.rule.insert key value, numbers := row.numbers.insert key.text order }

def Row.declarations (row : Row) : List (String × Declared) :=
  row.rule.entries.map fun (key, value) => (key, ⟨value, (row.numbers.find? key).getD 0⟩)

structure IndexedRules where
  rows : List Row
  index : Std.HashMap Selector Nat
  count : Nat

namespace IndexedRules

def empty : IndexedRules := ⟨[], ∅, 0⟩

instance : EmptyCollection IndexedRules := ⟨empty⟩

def introduce (t : IndexedRules) (s : Selector) : Nat × IndexedRules :=
  match t.index[s]? with
  | some place => (place, t)
  | none =>
      let place := t.rows.length
      (place, { t with rows := t.rows ++ [⟨s, ∅, ∅⟩], index := t.index.insert s place })

def nextOrder (t : IndexedRules) : Nat × IndexedRules :=
  (t.count + 1, { t with count := t.count + 1 })

def declare (t : IndexedRules) (s : Selector) (key : KeyPath) (value : Value) (order : Nat) :
    IndexedRules :=
  let (place, added) := t.introduce s
  { added with rows := added.rows.modify place (·.set key value order) }

def row? (t : IndexedRules) (s : Selector) : Option Row := t.index[s]?.bind (t.rows[·]?)

def get? (t : IndexedRules) (s : Selector) : Option Rule := (t.row? s).map (·.rule)

def position? (t : IndexedRules) (s : Selector) : Option Nat := t.index[s]?

def declarations (t : IndexedRules) (s : Selector) : List (String × Declared) :=
  ((t.row? s).map Row.declarations).getD []

end IndexedRules

/-- What is done to a table. A declaration may come with any number. -/
inductive Change
  | introduce (s : Selector)
  | number
  | declare (s : Selector) (path : String) (value : Value) (order : Nat)

namespace Change

def selector? : Change → Option Selector
  | .introduce s => some s
  | .number => none
  | .declare s _ _ _ => some s

def isNumber : Change → Bool
  | .number => true
  | _ => false

def setting? (s : Selector) (key : String) : Change → Option Declared
  | .declare u path value order =>
      if u.same s ∧ key = (KeyPath.ofText path).text then some ⟨value, order⟩ else none
  | _ => none

end Change

namespace Rules

def change (t : Rules) : Change → Rules
  | .introduce s => t.introduce s
  | .number => t.nextOrder.2
  | .declare s path value order => t.declare s (.ofText path) value order

def run (changes : List Change) : Rules := changes.foldl change ∅

private theorem run_snoc (changes : List Change) (c : Change) :
    run (changes ++ [c]) = (run changes).change c := by
  rw [run, run, List.foldl_append, List.foldl_cons, List.foldl_nil]

def selectors (t : Rules) : List Selector := t.entries.map (·.selector)

private theorem selectors_introduce (t : Rules) (s : Selector) :
    (t.introduce s).selectors =
      if t.selectors.any (·.same s) then t.selectors else t.selectors ++ [s] := by
  have known : (t.find? s).isSome = t.selectors.any (·.same s) := by
    rw [find?, List.isSome_find?, selectors, List.any_map]
    rfl
  rw [introduce, known]
  split
  · rfl
  · rw [selectors, List.map_append]
    rfl

private theorem selectors_declare (t : Rules) (s : Selector) (key : KeyPath) (value : Value)
    (order : Nat) : (t.declare s key value order).selectors = (t.introduce s).selectors := by
  simp only [selectors, declare, List.map_map]
  congr 1
  funext e
  simp only [Function.comp_apply]
  split <;> rfl

private theorem selectors_run (changes : List Change) :
    (run changes).selectors = Sheet.firsts (changes.filterMap Change.selector?) := by
  induction changes using List.reverseRecOn with
  | nil => rfl
  | append_singleton changes c ih =>
      have added : ∀ s, ((run changes).introduce s).selectors =
          Sheet.firsts (changes.filterMap Change.selector? ++ [s]) := fun s => by
        rw [selectors_introduce, ih, Sheet.any_firsts, Sheet.firsts_snoc]
      rw [run_snoc, List.filterMap_append]
      cases c with
      | introduce s => exact added s
      | number =>
          rw [List.filterMap_cons_none rfl, List.filterMap_nil, List.append_nil]
          exact ih
      | declare s path value order =>
          rw [change, selectors_declare]
          exact added s

private theorem setting?_run (changes : List Change) (s : Selector) (key : String) :
    (run changes).setting? s key = (changes.filterMap (Change.setting? s key)).getLast? := by
  induction changes using List.reverseRecOn with
  | nil => rfl
  | append_singleton changes c ih =>
      rw [run_snoc, List.filterMap_append, List.getLast?_append, ← ih]
      cases c with
      | introduce u => exact setting?_introduce _ u s key
      | number => rfl
      | declare u path value order =>
          rw [change, setting?_declare]
          simp only [List.filterMap_cons, List.filterMap_nil, Change.setting?]
          split <;> rfl

private theorem count_run (changes : List Change) :
    (run changes).count = changes.countP Change.isNumber := by
  induction changes using List.reverseRecOn with
  | nil => rfl
  | append_singleton changes c ih =>
      rw [run_snoc, List.countP_append, ← ih]
      cases c with
      | introduce s => exact count_introduce _ s
      | number => rfl
      | declare s path value order => exact count_declare _ s _ value order

private theorem position?_congr (t : Rules) {s u : Selector} (h : s.same u = true) :
    t.position? s = t.position? u := by
  simp only [position?, Selector.same, Selector.same_iff.1 h]

private theorem position?_eq_findIdx? (t : Rules) (s : Selector) :
    t.position? s = t.selectors.findIdx? (·.same s) := by
  rw [selectors, List.findIdx?_map]
  rfl

private theorem find?_eq_position? (t : Rules) (s : Selector) :
    t.find? s = (t.position? s).bind (t.entries[·]?) :=
  List.find?_eq_bind_findIdx?_getElem?

private theorem isSome_position? (t : Rules) (s : Selector) :
    (t.position? s).isSome = (t.find? s).isSome := by
  rw [position?, find?, List.findIdx?_isSome, List.isSome_find?]

private theorem position?_introduce {t : Rules} {u : Selector} (new : t.position? u = none)
    (s : Selector) :
    (t.introduce u).position? s = if u.same s then some t.entries.length else t.position? s := by
  have absent : ¬(t.find? u).isSome = true := by
    rw [← isSome_position?, new]
    exact Bool.false_ne_true
  rw [introduce, if_neg absent]
  simp only [position?, List.findIdx?_append, List.findIdx?_cons, List.findIdx?_nil]
  by_cases same : u.same s = true
  · have unknown : t.entries.findIdx? (·.selector.same s) = none :=
      (t.position?_congr same).symm.trans new
    simp [same, unknown]
  · simp [same]

private theorem position?_eq_some {t : Rules} (distinct : t.identities.Nodup) {s : Selector}
    {place : Nat} :
    t.position? s = some place ↔
      ∃ e, t.entries[place]? = some e ∧ e.selector.same s = true := by
  have fits : ∀ {i}, t.position? s = some i →
      ∃ e, t.entries[i]? = some e ∧ e.selector.same s = true := fun {i} h => by
    obtain ⟨inside, same, -⟩ := List.findIdx?_eq_some_iff_getElem.1 h
    exact ⟨_, List.getElem?_eq_getElem inside, same⟩
  refine ⟨fits, ?_⟩
  rintro ⟨e, here, same⟩
  have known : (t.position? s).isSome = true := by
    rw [isSome_position?, find?, List.isSome_find?, List.any_eq_true]
    exact ⟨e, List.mem_of_getElem? here, same⟩
  obtain ⟨first, found⟩ := Option.isSome_iff_exists.1 known
  obtain ⟨e', there, same'⟩ := fits found
  have equal : t.identities[first]? = t.identities[place]? := by
    simp only [identities, List.getElem?_map, here, there, Option.map_some,
      Selector.same_iff.1 same, Selector.same_iff.1 same']
  have inside : first < t.identities.length := by
    rw [identities, List.length_map]
    exact (List.getElem?_eq_some_iff.1 there).1
  rw [found, (List.getElem?_inj inside distinct).1 equal]

private theorem map_eq_modify {t : Rules} (distinct : t.identities.Nodup) {s : Selector}
    {place : Nat} (found : t.position? s = some place) (f : Entry → Entry) :
    (t.entries.map fun e => if e.selector.same s then f e else e) = t.entries.modify place f := by
  refine List.ext_getElem? fun i => ?_
  rw [List.getElem?_map, List.getElem?_modify]
  cases here : t.entries[i]? with
  | none => rfl
  | some e =>
      have only : e.selector.same s = true ↔ place = i := by
        constructor
        · intro same
          exact Option.some.inj
            (found.symm.trans ((position?_eq_some distinct).2 ⟨e, here, same⟩))
        · rintro rfl
          obtain ⟨e', there, same⟩ := (position?_eq_some distinct).1 found
          exact Option.some.inj (there.symm.trans here) ▸ same
      simp only [Option.map_some, Option.map_eq_map, only]

private theorem sorted_declarations (t : Rules) (s : Selector) :
    (t.declarations s).Pairwise fun a b => a.1 < b.1 := by
  rw [declarations]
  cases t.find? s with
  | none => exact .nil
  | some e => exact e.declared.sorted

private theorem mem_declarations {t : Rules} {s : Selector} {key : String} {d : Declared} :
    (key, d) ∈ t.declarations s ↔ t.setting? s key = some d := by
  rw [declarations, setting?]
  cases t.find? s with
  | none =>
      constructor
      · intro member
        cases member
      · intro found
        cases found
  | some e => exact OrderedMap.mem_entries

private theorem position?_change {t : Rules} {s : Selector} {place : Nat}
    (h : t.position? s = some place) (c : Change) : (t.change c).position? s = some place := by
  have introduced : ∀ u, (t.introduce u).position? s = some place := fun u => by
    rw [position?_eq_findIdx?] at h ⊢
    rw [selectors_introduce]
    split
    · exact h
    · rw [List.findIdx?_append, h]
      rfl
  cases c with
  | introduce u => exact introduced u
  | number => exact h
  | declare u path value order =>
      rw [change, position?_eq_findIdx?, selectors_declare, ← position?_eq_findIdx?]
      exact introduced u

private theorem position?_run_append {changes : List Change} {s : Selector} {place : Nat}
    (h : (run changes).position? s = some place) (more : List Change) :
    (run (changes ++ more)).position? s = some place := by
  induction more using List.reverseRecOn with
  | nil => rwa [List.append_nil]
  | append_singleton more c ih =>
      rw [← List.append_assoc, run_snoc]
      exact position?_change ih c

private theorem position?_run_eq_none {changes : List Change} {s : Selector} :
    (run changes).position? s = none ↔
      ∀ u ∈ changes.filterMap Change.selector?, u.same s = false := by
  rw [position?_eq_findIdx?, ← Option.not_isSome_iff_eq_none, List.findIdx?_isSome, selectors_run,
    Sheet.any_firsts, Bool.not_eq_true, List.any_eq_false]
  simp only [Bool.not_eq_true]

end Rules

def Entry.row (e : Entry) : Row := ⟨e.selector, e.rule, e.declared.mapValues (·.order)⟩

private theorem Entry.row_insert (e : Entry) (key : KeyPath) (value : Value) (order : Nat) :
    Entry.row { e with declared := e.declared.insert key.text ⟨value, order⟩ } =
      e.row.set key value order := by
  rw [row, rule, OrderedMap.mapValues_insert, OrderedMap.mapValues_insert]
  rfl

private theorem Entry.modify_row (entries : List Entry) (place : Nat) (key : KeyPath)
    (value : Value) (order : Nat) :
    (entries.map Entry.row).modify place (·.set key value order) =
      (entries.modify place fun e =>
        { e with declared := e.declared.insert key.text ⟨value, order⟩ }).map Entry.row := by
  induction entries generalizing place with
  | nil => rw [List.modify_nil, List.map_nil, List.modify_nil]
  | cons e rest ih =>
      rw [List.map_cons, List.modify_cons, List.modify_cons, ih]
      split
      · rw [List.map_cons, row_insert]
      · rfl

private theorem Entry.declarations_row (e : Entry) : e.row.declarations = e.declared.entries := by
  have number : ∀ d ∈ e.declared.entries,
      (d.1, Declared.mk d.2.value ((e.row.numbers.find? d.1).getD 0)) = d := by
    rintro ⟨key, declared⟩ member
    rw [row, OrderedMap.find?_mapValues, OrderedMap.mem_entries.1 member]
    rfl
  rw [Row.declarations, Rule.entries]
  show (e.declared.entries.map _).map _ = _
  rw [List.map_map]
  exact (List.map_congr_left number).trans (List.map_id _)

namespace IndexedRules

structure Mirrors (t : IndexedRules) (r : Rules) : Prop where
  rows : t.rows = r.entries.map Entry.row
  index : ∀ s, t.index[s]? = r.position? s
  count : t.count = r.count
  distinct : r.identities.Nodup

private theorem mirrors_empty : Mirrors ∅ ∅ where
  rows := rfl
  index _ := Std.HashMap.getElem?_empty
  count := rfl
  distinct := List.nodup_nil

variable {t : IndexedRules} {r : Rules}

private theorem Mirrors.nextOrder (h : t.Mirrors r) : t.nextOrder.2.Mirrors r.nextOrder.2 where
  rows := h.rows
  index := h.index
  count := congrArg (· + 1) h.count
  distinct := h.distinct

private theorem Mirrors.introduce (h : t.Mirrors r) (s : Selector) :
    (t.introduce s).2.Mirrors (r.introduce s) ∧
      (r.introduce s).position? s = some (t.introduce s).1 := by
  cases found : r.position? s with
  | some place =>
      have known : (r.find? s).isSome = true := by
        rw [← Rules.isSome_position?, found]
        rfl
      have same : t.introduce s = (place, t) := by
        rw [IndexedRules.introduce, h.index, found]
      rw [Rules.introduce, if_pos known, same]
      exact ⟨h, found⟩
  | none =>
      have unknown : ¬(r.find? s).isSome = true := by
        rw [← Rules.isSome_position?, found]
        exact Bool.false_ne_true
      have size : t.rows.length = r.entries.length := by rw [h.rows, List.length_map]
      have added : t.introduce s = (r.entries.length,
          ⟨t.rows ++ [⟨s, ∅, ∅⟩], t.index.insert s r.entries.length, t.count⟩) := by
        rw [IndexedRules.introduce, h.index, found, size]
      rw [added]
      refine ⟨⟨?_, fun u => ?_, ?_, Rules.nodup_identities_introduce h.distinct s⟩, ?_⟩
      · rw [Rules.introduce, if_neg unknown, List.map_append, ← h.rows]
        rfl
      · rw [Rules.position?_introduce found, Std.HashMap.getElem?_insert, h.index]
        rfl
      · rw [Rules.count_introduce]
        exact h.count
      · rw [Rules.position?_introduce found, if_pos s.same_self]

private theorem Mirrors.declare (h : t.Mirrors r) (s : Selector) (key : KeyPath) (value : Value)
    (order : Nat) : (t.declare s key value order).Mirrors (r.declare s key value order) := by
  obtain ⟨added, place⟩ := h.introduce s
  have rows := Rules.map_eq_modify added.distinct place fun e =>
    { e with declared := e.declared.insert key.text ⟨value, order⟩ }
  have selectors := r.selectors_declare s key value order
  refine ⟨?_, fun u => ?_, ?_, ?_⟩
  · rw [Rules.declare, rows]
    show (t.introduce s).2.rows.modify _ _ = _
    rw [added.rows]
    exact Entry.modify_row ..
  · rw [Rules.position?_eq_findIdx?, selectors, ← Rules.position?_eq_findIdx?]
    exact added.index u
  · rw [Rules.count_declare, ← r.count_introduce s]
    exact added.count
  · rw [Rules.identities_declare]
    exact added.distinct

def change (t : IndexedRules) : Change → IndexedRules
  | .introduce s => (t.introduce s).2
  | .number => t.nextOrder.2
  | .declare s path value order => t.declare s (.ofText path) value order

/-- The table after some changes to the empty one. -/
def run (changes : List Change) : IndexedRules := changes.foldl change ∅

private theorem Mirrors.change (h : t.Mirrors r) (c : Change) :
    (t.change c).Mirrors (r.change c) := by
  cases c with
  | introduce s => exact (h.introduce s).1
  | number => exact h.nextOrder
  | declare s path value order => exact h.declare s (.ofText path) value order

private theorem mirrors_run (changes : List Change) :
    (run changes).Mirrors (Rules.run changes) := by
  induction changes using List.reverseRecOn with
  | nil => exact mirrors_empty
  | append_singleton changes c ih =>
      rw [Rules.run_snoc, run, List.foldl_append]
      exact ih.change c

/-! What can be asked of the table. -/

private theorem Mirrors.row? (h : t.Mirrors r) (s : Selector) :
    t.row? s = (r.find? s).map Entry.row := by
  rw [IndexedRules.row?, h.index, h.rows, Rules.find?_eq_position?, Option.map_bind]
  simp only [List.getElem?_map]
  rfl

private theorem Mirrors.get? (h : t.Mirrors r) (s : Selector) : t.get? s = r.get? s := by
  rw [IndexedRules.get?, h.row?, Option.map_map]
  rfl

private theorem Mirrors.declarations (h : t.Mirrors r) (s : Selector) :
    t.declarations s = r.declarations s := by
  rw [IndexedRules.declarations, h.row?, Option.map_map, Rules.declarations]
  simp only [Function.comp_def, Entry.declarations_row]

private theorem Mirrors.selectors (h : t.Mirrors r) : t.rows.map (·.selector) = r.selectors := by
  rw [h.rows, List.map_map]
  rfl

private theorem Mirrors.index_eq_some (h : t.Mirrors r) {s : Selector} {place : Nat} :
    t.index[s]? = some place ↔
      ∃ row, t.rows[place]? = some row ∧ row.selector.same s = true := by
  rw [h.index, Rules.position?_eq_some h.distinct, h.rows, List.getElem?_map]
  constructor
  · rintro ⟨e, here, same⟩
    exact ⟨e.row, by rw [here, Option.map_some], same⟩
  · rintro ⟨row, here, same⟩
    obtain ⟨e, stored, rfl⟩ := Option.map_eq_some_iff.1 here
    exact ⟨e, stored, same⟩

private theorem Mirrors.apart (h : t.Mirrors r) :
    t.rows.Pairwise fun a b => a.selector.same b.selector = false := by
  have distinct : r.entries.Pairwise fun a b => a.selector.identity ≠ b.selector.identity :=
    List.pairwise_map.1 h.distinct
  rw [h.rows, List.pairwise_map]
  refine distinct.imp fun different => ?_
  exact Bool.eq_false_iff.2 fun same => different (Selector.same_iff.1 same)

private theorem Mirrors.keys (h : t.Mirrors r) {row : Row} (member : row ∈ t.rows) :
    row.rule.values.keys = row.numbers.keys := by
  rw [h.rows] at member
  obtain ⟨e, -, rfl⟩ := List.mem_map.1 member
  show (e.declared.mapValues _).keys = (e.declared.mapValues _).keys
  rw [OrderedMap.keys_mapValues, OrderedMap.keys_mapValues]

/-- What a table holds after some changes to the empty one. -/
structure Holds (changes : List Change) (t : IndexedRules) : Prop where
  /-- The index has the place of every row for its selector, and nothing else. -/
  index : ∀ (s : Selector) (place : Nat), t.index[s]? = some place ↔
    ∃ row, t.rows[place]? = some row ∧ row.selector.same s = true
  /-- No two rows have equal selectors. -/
  apart : t.rows.Pairwise fun a b => a.selector.same b.selector = false
  /-- The rows are in the order in which their selectors came up first. -/
  firsts : t.rows.map (·.selector) = Sheet.firsts (changes.filterMap Change.selector?)
  /-- Adding a selector gives the place at which it is found. -/
  given : ∀ s, (t.introduce s).2.position? s = some (t.introduce s).1
  /-- Places stay, whatever is done next. -/
  stays : ∀ more s place, t.position? s = some place →
    (run (changes ++ more)).position? s = some place
  /-- A row has a number for each of its values, and no others. -/
  keys : ∀ row ∈ t.rows, row.rule.values.keys = row.numbers.keys
  /-- Declarations are listed by their keys, each key once. -/
  ordered : ∀ s, (t.declarations s).Pairwise fun a b => a.1 < b.1
  /-- For each key there is what was declared last for an equal selector. -/
  latest : ∀ s key d, (key, d) ∈ t.declarations s ↔
    (changes.filterMap (Change.setting? s key)).getLast? = some d
  /-- There is no rule and no place only where no equal selector was added. -/
  get?_eq_none : ∀ s, t.get? s = none ↔
    ∀ u ∈ changes.filterMap Change.selector?, u.same s = false
  position?_eq_none : ∀ s, t.position? s = none ↔
    ∀ u ∈ changes.filterMap Change.selector?, u.same s = false
  /-- Declarations are numbered from one on, whatever else is done. -/
  numbered : t.nextOrder.1 = changes.countP Change.isNumber + 1
  /-- Without an index and with one store the table is the same. -/
  get? : ∀ s, t.get? s = (Rules.run changes).get? s
  position? : ∀ s, t.position? s = (Rules.run changes).position? s
  declarations : ∀ s, t.declarations s = (Rules.run changes).declarations s

/-- Under every sequence of changes the rows, their two stores and the index are in step, and the
table is an ordered map from selectors to what was declared for them last. -/
theorem holds_run (changes : List Change) : Holds changes (run changes) := by
  have mirrors := mirrors_run changes
  refine {
    index _ _ := mirrors.index_eq_some
    apart := mirrors.apart
    firsts := mirrors.selectors.trans (Rules.selectors_run changes)
    given s := ?_
    stays more s place h := ?_
    keys _ := mirrors.keys
    ordered s := ?_
    latest s key d := ?_
    get?_eq_none s := ?_
    position?_eq_none s := ?_
    numbered := ?_
    get? := mirrors.get?
    position? := mirrors.index
    declarations := mirrors.declarations }
  · obtain ⟨added, place⟩ := mirrors.introduce s
    exact (added.index s).trans place
  · have before : (Rules.run changes).position? s = some place := (mirrors.index s).symm.trans h
    exact ((mirrors_run _).index s).trans (Rules.position?_run_append before more)
  · rw [mirrors.declarations]
    exact Rules.sorted_declarations _ s
  · rw [mirrors.declarations, Rules.mem_declarations, Rules.setting?_run]
  · rw [mirrors.get?, Rules.get?, Option.map_eq_none_iff, ← Rules.position?_run_eq_none,
      ← Option.not_isSome_iff_eq_none, ← Option.not_isSome_iff_eq_none, Rules.isSome_position?]
  · rw [IndexedRules.position?, mirrors.index, Rules.position?_run_eq_none]
  · rw [IndexedRules.nextOrder, mirrors.count, Rules.count_run]

end IndexedRules

end ViewStyle
