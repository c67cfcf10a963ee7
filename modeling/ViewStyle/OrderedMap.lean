/-
Finite maps from texts, listed in the order of their keys. The order is by code points.
-/

set_option autoImplicit false

namespace ViewStyle

namespace OrderedMap

variable {α β : Type}

def insertEntry (key : String) (value : α) : List (String × α) → List (String × α)
  | [] => [(key, value)]
  | (k, v) :: rest =>
      if key < k then (key, value) :: (k, v) :: rest
      else if key = k then (key, value) :: rest
      else (k, v) :: insertEntry key value rest

def exchangeEntry (key : String) (value : α) : List (String × α) → Option α × List (String × α)
  | [] => (none, [(key, value)])
  | (k, v) :: rest =>
      if key < k then (none, (key, value) :: (k, v) :: rest)
      else if key = k then (some v, (key, value) :: rest)
      else
        let (old, rest) := exchangeEntry key value rest
        (old, (k, v) :: rest)

private theorem snd_exchangeEntry (key : String) (value : α) (l : List (String × α)) :
    (exchangeEntry key value l).2 = insertEntry key value l := by
  induction l with
  | nil => rfl
  | cons e rest ih =>
      unfold exchangeEntry insertEntry
      split
      · rfl
      · split
        · rfl
        · rw [← ih]

theorem lookup_cons_eq_ite (k : String) (e : String × α) (l : List (String × α)) :
    (e :: l).lookup k = if k = e.1 then some e.2 else l.lookup k := by
  by_cases h : k = e.1
  · rw [List.lookup_cons, beq_iff_eq.2 h, if_pos h]
  · rw [List.lookup_cons, beq_eq_false_iff_ne.2 h, if_neg h]

private theorem lookup_insertEntry (key k : String) (value : α) (l : List (String × α)) :
    (insertEntry key value l).lookup k = if k = key then some value else l.lookup k := by
  induction l with
  | nil => simp [insertEntry, lookup_cons_eq_ite]
  | cons e rest ih => grind [insertEntry, lookup_cons_eq_ite]

theorem mem_insertEntry {key : String} {value : α} {e : String × α} {l : List (String × α)} :
    e ∈ insertEntry key value l → e = (key, value) ∨ e ∈ l := by
  induction l with
  | nil => simp [insertEntry]
  | cons d rest ih =>
      unfold insertEntry
      split
      · simp
      · split
        · intro h
          rcases List.mem_cons.1 h with h | h
          · exact .inl h
          · exact .inr (List.mem_cons_of_mem _ h)
        · intro h
          rcases List.mem_cons.1 h with h | h
          · exact .inr (h ▸ List.mem_cons_self)
          · exact (ih h).imp id (List.mem_cons_of_mem _)

private theorem pairwise_insertEntry (key : String) (value : α) {l : List (String × α)}
    (h : l.Pairwise fun a b => a.1 < b.1) :
    (insertEntry key value l).Pairwise fun a b => a.1 < b.1 := by
  induction l with
  | nil => simp [insertEntry]
  | cons d rest ih =>
      have hd : ∀ e ∈ rest, d.1 < e.1 := fun _ he => List.rel_of_pairwise_cons h he
      unfold insertEntry
      split
      · rename_i hlt
        refine List.pairwise_cons.2 ⟨?_, h⟩
        intro e he
        rcases List.mem_cons.1 he with rfl | he
        · exact hlt
        · exact String.lt_trans hlt (hd e he)
      · split
        · rename_i heq
          exact List.pairwise_cons.2 ⟨fun e he => heq ▸ hd e he, h.of_cons⟩
        · rename_i hle hne
          refine List.pairwise_cons.2 ⟨?_, ih h.of_cons⟩
          intro e he
          rcases mem_insertEntry he with rfl | he
          · exact String.not_le.1 fun hge => hne (String.le_antisymm hge (String.not_lt.1 hle))
          · exact hd e he

private theorem lookup_eq_none_of_lt {key : String} {l : List (String × α)}
    (h : ∀ e ∈ l, key < e.1) : l.lookup key = none := by
  refine List.lookup_eq_none_iff.2 fun e member => bne_iff_ne.2 fun equal => ?_
  have later := h e member
  rw [← equal] at later
  exact String.lt_irrefl key later

private theorem fst_exchangeEntry (key : String) (value : α) {l : List (String × α)}
    (h : l.Pairwise fun a b => a.1 < b.1) : (exchangeEntry key value l).1 = l.lookup key := by
  induction l with
  | nil => rfl
  | cons d rest ih =>
      have hd : ∀ e ∈ rest, d.1 < e.1 := fun _ he => List.rel_of_pairwise_cons h he
      rw [lookup_cons_eq_ite]
      unfold exchangeEntry
      split
      · rename_i hlt
        have hne : key ≠ d.1 := fun heq => String.lt_irrefl d.1 (heq ▸ hlt)
        rw [if_neg hne, lookup_eq_none_of_lt fun e he => String.lt_trans hlt (hd e he)]
      · split
        · rfl
        · exact ih h.of_cons

private theorem lookup_filter_ne (key k : String) (l : List (String × α)) :
    (l.filter (·.1 != key)).lookup k = if k = key then none else l.lookup k := by
  induction l with
  | nil => simp
  | cons d rest ih => grind [lookup_cons_eq_ite]

end OrderedMap

/-- A map from texts, with its entries in strictly increasing order of their keys. -/
structure OrderedMap (α : Type) where
  entries : List (String × α)
  sorted : entries.Pairwise fun a b => a.1 < b.1

namespace OrderedMap

variable {α β : Type}

def empty : OrderedMap α := ⟨[], .nil⟩

instance : EmptyCollection (OrderedMap α) := ⟨empty⟩

instance : Inhabited (OrderedMap α) := ⟨empty⟩

def find? (m : OrderedMap α) (key : String) : Option α := m.entries.lookup key

def contains (m : OrderedMap α) (key : String) : Bool := (m.find? key).isSome

def insert (m : OrderedMap α) (key : String) (value : α) : OrderedMap α :=
  ⟨insertEntry key value m.entries, pairwise_insertEntry key value m.sorted⟩

def exchange (m : OrderedMap α) (key : String) (value : α) : Option α × OrderedMap α :=
  let entries := exchangeEntry key value m.entries
  (entries.1, ⟨entries.2, by
    rw [snd_exchangeEntry]
    exact pairwise_insertEntry key value m.sorted⟩)

def erase (m : OrderedMap α) (key : String) : OrderedMap α :=
  ⟨m.entries.filter (·.1 != key), m.sorted.filter _⟩

def keys (m : OrderedMap α) : List String := m.entries.map (·.1)

def size (m : OrderedMap α) : Nat := m.entries.length

def isEmpty (m : OrderedMap α) : Bool := m.entries.isEmpty

def mapValues (f : α → β) (m : OrderedMap α) : OrderedMap β :=
  ⟨m.entries.map fun e => (e.1, f e.2), m.sorted.map _ fun _ _ h => h⟩

def merge (m other : OrderedMap α) : OrderedMap α :=
  other.entries.foldl (fun m e => m.insert e.1 e.2) m

@[simp] theorem find?_insert (m : OrderedMap α) (key k : String) (value : α) :
    (m.insert key value).find? k = if k = key then some value else m.find? k :=
  lookup_insertEntry key k value m.entries

@[simp] theorem find?_erase (m : OrderedMap α) (key k : String) :
    (m.erase key).find? k = if k = key then none else m.find? k :=
  lookup_filter_ne key k m.entries

theorem mem_entries {m : OrderedMap α} {key : String} {value : α} :
    (key, value) ∈ m.entries ↔ m.find? key = some value := by
  obtain ⟨entries, sorted⟩ := m
  unfold find?
  induction entries with
  | nil => simp
  | cons e rest ih =>
      have first : ∀ d ∈ rest, e.1 < d.1 := fun _ hd => List.rel_of_pairwise_cons sorted hd
      rw [List.mem_cons, ih sorted.of_cons, lookup_cons_eq_ite]
      split
      · rename_i here
        subst here
        constructor
        · rintro (equal | found)
          · exact congrArg (fun d => some d.2) equal.symm
          · exact absurd (first _ ((ih sorted.of_cons).2 found)) (String.lt_irrefl _)
        · intro h
          exact .inl (Prod.ext rfl (Option.some.inj h).symm)
      · rename_i other
        constructor
        · rintro (equal | found)
          · exact absurd (congrArg (·.1) equal) other
          · exact found
        · exact .inr

theorem exchange_eq (m : OrderedMap α) (key : String) (value : α) :
    m.exchange key value = (m.find? key, m.insert key value) := by
  obtain ⟨entries, sorted⟩ := m
  refine Prod.ext ?_ ?_
  · exact fst_exchangeEntry key value sorted
  · unfold exchange insert
    simp only [snd_exchangeEntry]

protected def beq [BEq α] (a b : OrderedMap α) : Bool := a.entries == b.entries

instance [BEq α] : BEq (OrderedMap α) := ⟨OrderedMap.beq⟩

end OrderedMap

end ViewStyle
