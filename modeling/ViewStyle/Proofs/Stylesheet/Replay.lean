/-
A log of declarations replayed into a table. Each declaration adds its selectors, takes the next
number, and sets its value for all of them; of the table only two things can be seen, the selector
that stands for all equal ones and the last setting of a property.
-/

import Mathlib.Data.List.Induction
import ViewStyle.Stylesheet.Table

set_option autoImplicit false

namespace ViewStyle

namespace Selector

theorem same_iff {s t : Selector} : s.same t = true ↔ s.identity = t.identity := by
  simp [same]

theorem same_comm (s t : Selector) : s.same t = t.same s := by
  rw [same, same, Bool.beq_comm]

theorem same_trans {s t u : Selector} (h : s.same t = true) (h' : t.same u = true) :
    s.same u = true :=
  same_iff.2 ((same_iff.1 h).trans (same_iff.1 h'))

theorem same_self (s : Selector) : s.same s = true :=
  same_iff.2 rfl

end Selector

/-- A value for one property of some selectors. -/
structure Declaration where
  selectors : List Selector
  path : String
  value : Value

namespace Declaration

def key (d : Declaration) : String := (KeyPath.ofText d.path).text

def concerns (d : Declaration) (s : Selector) : Bool := d.selectors.any (·.same s)

end Declaration

namespace Rules

def record (t : Rules) (d : Declaration) : Rules :=
  let (order, t) := (d.selectors.foldl introduce t).nextOrder
  d.selectors.foldl (fun t s => t.declare s (.ofText d.path) d.value order) t

/-- The table of a log, from the first declaration to the last. -/
def replay (log : List Declaration) : Rules := log.foldl record ∅

def leader? (t : Rules) (s : Selector) : Option Selector := (t.find? s).map (·.selector)

/-- What a table keeps for a property of a selector. -/
def setting? (t : Rules) (s : Selector) (key : String) : Option Declared :=
  (t.find? s).bind (·.declared.find? key)

def identities (t : Rules) : List Selector.Identity := t.entries.map (·.selector.identity)

private theorem find?_introduce (t : Rules) (u s : Selector) :
    (t.introduce u).find? s = (t.find? s).or (if u.same s then some ⟨u, ∅⟩ else none) := by
  unfold introduce
  split
  · rename_i known
    split
    · rename_i same
      have equal : t.find? u = t.find? s := by
        simp only [find?, Selector.same, Selector.same_iff.1 same]
      rw [equal] at known
      obtain ⟨e, he⟩ := Option.isSome_iff_exists.1 known
      simp [he]
    · simp
  · simp [find?, List.find?_append, List.find?_singleton]

private theorem find?_declare (t : Rules) (u s : Selector) (key : KeyPath) (value : Value)
    (order : Nat) :
    (t.declare u key value order).find? s =
      ((t.introduce u).find? s).map fun e =>
        if e.selector.same u then { e with declared := e.declared.insert key.text ⟨value, order⟩ }
        else e := by
  simp only [declare, find?, List.find?_map]
  congr 2
  funext e
  simp only [Function.comp_apply]
  split <;> rfl

private theorem same_of_find? {t : Rules} {s : Selector} {e : Entry} (h : t.find? s = some e) :
    e.selector.same s = true := by
  have found := List.find?_some h
  exact found

private theorem leader?_introduce (t : Rules) (u s : Selector) :
    (t.introduce u).leader? s = (t.leader? s).or (if u.same s then some u else none) := by
  simp only [leader?, find?_introduce]
  cases t.find? s with
  | some e => rfl
  | none => split <;> rfl

private theorem leader?_declare (t : Rules) (u s : Selector) (key : KeyPath) (value : Value)
    (order : Nat) : (t.declare u key value order).leader? s = (t.introduce u).leader? s := by
  simp only [leader?, find?_declare, Option.map_map]
  congr 1
  funext e
  simp only [Function.comp_apply]
  split <;> rfl

theorem setting?_introduce (t : Rules) (u s : Selector) (key : String) :
    (t.introduce u).setting? s key = t.setting? s key := by
  simp only [setting?, find?_introduce]
  cases t.find? s with
  | some e => rfl
  | none => split <;> rfl

theorem setting?_declare (t : Rules) (u s : Selector) (path : KeyPath) (value : Value)
    (order : Nat) (key : String) :
    (t.declare u path value order).setting? s key =
      if u.same s ∧ key = path.text then some ⟨value, order⟩ else t.setting? s key := by
  rw [← setting?_introduce t u s key]
  simp only [setting?, find?_declare]
  cases found : (t.introduce u).find? s with
  | none =>
      have differs : ¬u.same s = true := by
        intro same
        simp [find?_introduce, same] at found
      simp [differs]
  | some e =>
      have stands := Selector.same_iff.1 (same_of_find? found)
      have iff : e.selector.same u = u.same s := by
        simp [Selector.same, stands, Bool.beq_comm]
      simp only [Option.map_some, Option.bind_some, iff]
      by_cases same : u.same s = true
      · simp [same]
      · simp [same]

@[simp] theorem count_introduce (t : Rules) (s : Selector) : (t.introduce s).count = t.count := by
  unfold introduce
  split <;> rfl

@[simp] theorem count_declare (t : Rules) (s : Selector) (key : KeyPath) (value : Value)
    (order : Nat) : (t.declare s key value order).count = t.count := by
  simp [declare]

theorem count_foldl_introduce (us : List Selector) (t : Rules) :
    (us.foldl introduce t).count = t.count := by
  induction us generalizing t with
  | nil => rfl
  | cons u us ih => rw [List.foldl_cons, ih, count_introduce]

private theorem count_foldl_declare (us : List Selector) (key : KeyPath) (value : Value)
    (order : Nat) (t : Rules) :
    (us.foldl (fun t s => t.declare s key value order) t).count = t.count := by
  induction us generalizing t with
  | nil => rfl
  | cons u us ih => rw [List.foldl_cons, ih, count_declare]

theorem leader?_foldl_introduce (us : List Selector) (t : Rules) (s : Selector) :
    (us.foldl introduce t).leader? s = (t.leader? s).or (us.find? (·.same s)) := by
  induction us generalizing t with
  | nil => simp
  | cons u us ih =>
      rw [List.foldl_cons, ih, leader?_introduce, Option.or_assoc, List.find?_cons]
      cases u.same s <;> simp

theorem leader?_foldl_declare (us : List Selector) (key : KeyPath) (value : Value) (order : Nat)
    (t : Rules) (s : Selector) :
    (us.foldl (fun t s => t.declare s key value order) t).leader? s =
      (t.leader? s).or (us.find? (·.same s)) := by
  induction us generalizing t with
  | nil => simp
  | cons u us ih =>
      rw [List.foldl_cons, ih, leader?_declare, leader?_introduce, Option.or_assoc,
        List.find?_cons]
      cases u.same s <;> simp

private theorem setting?_foldl_introduce (us : List Selector) (t : Rules) (s : Selector)
    (key : String) : (us.foldl introduce t).setting? s key = t.setting? s key := by
  induction us generalizing t with
  | nil => rfl
  | cons u us ih => rw [List.foldl_cons, ih, setting?_introduce]

theorem setting?_foldl_declare (us : List Selector) (path : KeyPath) (value : Value)
    (order : Nat) (t : Rules) (s : Selector) (key : String) :
    (us.foldl (fun t s => t.declare s path value order) t).setting? s key =
      if us.any (·.same s) ∧ key = path.text then some ⟨value, order⟩
      else t.setting? s key := by
  induction us generalizing t with
  | nil => simp
  | cons u us ih =>
      rw [List.foldl_cons, ih, setting?_declare]
      by_cases same : u.same s = true <;> by_cases equal : key = path.text <;> simp [same, equal]

private theorem count_record (t : Rules) (d : Declaration) : (t.record d).count = t.count + 1 := by
  simp only [record, nextOrder, count_foldl_declare, count_foldl_introduce]

private theorem leader?_record (t : Rules) (d : Declaration) (s : Selector) :
    (t.record d).leader? s = (t.leader? s).or (d.selectors.find? (·.same s)) := by
  simp only [record, nextOrder, leader?_foldl_declare]
  change ((d.selectors.foldl introduce t).leader? s).or _ = _
  rw [leader?_foldl_introduce, Option.or_assoc, Option.or_self]

private theorem setting?_record (t : Rules) (d : Declaration) (s : Selector) (key : String) :
    (t.record d).setting? s key =
      if d.concerns s ∧ key = d.key then some ⟨d.value, t.count + 1⟩ else t.setting? s key := by
  simp only [record, nextOrder, setting?_foldl_declare, count_foldl_introduce]
  change (if _ then _ else (d.selectors.foldl introduce t).setting? s key) = _
  rw [setting?_foldl_introduce]
  rfl

/-! Every selector has one entry only. -/

private theorem identities_introduce (t : Rules) (s : Selector) :
    (t.introduce s).identities =
      if s.identity ∈ t.identities then t.identities else t.identities ++ [s.identity] := by
  have known : (t.find? s).isSome = true ↔ s.identity ∈ t.identities := by
    simp only [find?, List.find?_isSome, Selector.same_iff, identities, List.mem_map]
  unfold introduce
  by_cases h : s.identity ∈ t.identities
  · simp [known.2 h, h]
  · have fresh : ¬(t.find? s).isSome = true := fun found => h (known.1 found)
    rw [if_neg fresh, if_neg h]
    simp [identities]

theorem identities_declare (t : Rules) (s : Selector) (key : KeyPath) (value : Value)
    (order : Nat) : (t.declare s key value order).identities = (t.introduce s).identities := by
  simp only [identities, declare, List.map_map]
  congr 1
  funext e
  simp only [Function.comp_apply]
  split <;> rfl

theorem nodup_identities_introduce {t : Rules} (h : t.identities.Nodup) (s : Selector) :
    (t.introduce s).identities.Nodup := by
  rw [identities_introduce]
  split
  · exact h
  · rename_i fresh
    refine List.nodup_append.2 ⟨h, by simp, ?_⟩
    intro a ha b hb equal
    exact fresh (List.mem_singleton.1 hb ▸ equal ▸ ha)

private theorem nodup_identities_record {t : Rules} (h : t.identities.Nodup) (d : Declaration) :
    (t.record d).identities.Nodup := by
  have introduced : ∀ (us : List Selector) (t : Rules), t.identities.Nodup →
      (us.foldl introduce t).identities.Nodup := by
    intro us
    induction us with
    | nil => exact fun _ h => h
    | cons u us ih => exact fun t h => ih _ (nodup_identities_introduce h u)
  have declared : ∀ (us : List Selector) (order : Nat) (t : Rules), t.identities.Nodup →
      (us.foldl (fun t s => t.declare s (.ofText d.path) d.value order) t).identities.Nodup := by
    intro us order
    induction us with
    | nil => exact fun _ h => h
    | cons u us ih =>
        intro t h
        refine ih _ ?_
        rw [identities_declare]
        exact nodup_identities_introduce h u
  exact declared _ _ _ (introduced _ _ h)

theorem mem_entries_iff {t : Rules} (h : t.identities.Nodup) {e : Entry} :
    e ∈ t.entries ↔ t.find? e.selector = some e := by
  constructor
  · intro member
    unfold identities at h
    unfold find?
    generalize t.entries = entries at h member
    induction entries with
    | nil => cases member
    | cons f rest ih =>
        rw [List.map_cons, List.nodup_cons] at h
        rw [List.find?_cons]
        rcases List.mem_cons.1 member with rfl | member
        · simp [Selector.same]
        · have differs : f.selector.same e.selector = false := by
            rw [Bool.eq_false_iff]
            intro same
            exact h.1 (List.mem_map.2 ⟨e, member, (Selector.same_iff.1 same).symm⟩)
          rw [differs]
          exact ih h.2 member
  · exact List.mem_of_find?_eq_some

/-! What the table of a whole log holds. -/

private theorem replay_snoc (log : List Declaration) (d : Declaration) :
    replay (log ++ [d]) = (replay log).record d := by
  simp [replay]

private theorem count_replay (log : List Declaration) : (replay log).count = log.length := by
  induction log using List.reverseRecOn with
  | nil => rfl
  | append_singleton log d ih => rw [replay_snoc, count_record, ih, List.length_append]; rfl

theorem nodup_identities_replay (log : List Declaration) : (replay log).identities.Nodup := by
  induction log using List.reverseRecOn with
  | nil => exact List.nodup_nil
  | append_singleton log d ih => rw [replay_snoc]; exact nodup_identities_record ih d

theorem leader?_replay (log : List Declaration) (s : Selector) :
    (replay log).leader? s = (log.flatMap (·.selectors)).find? (·.same s) := by
  induction log using List.reverseRecOn with
  | nil => rfl
  | append_singleton log d ih =>
      rw [replay_snoc, leader?_record, ih, List.flatMap_append, List.find?_append]
      simp

/-- The table keeps the last declaration of a property, with its number counted from one. -/
theorem setting?_replay_eq_some {log : List Declaration} {s : Selector} {key : String}
    {x : Declared} :
    (replay log).setting? s key = some x ↔
      ∃ i d, log[i]? = some d ∧ d.concerns s = true ∧ key = d.key ∧ x = ⟨d.value, i + 1⟩ ∧
        ∀ j e, i < j → log[j]? = some e → key = e.key → ¬e.concerns s = true := by
  induction log using List.reverseRecOn with
  | nil =>
      constructor
      · intro h
        cases h
      · rintro ⟨i, d, h, -⟩
        cases h
  | append_singleton log d ih =>
      rw [replay_snoc, setting?_record, count_replay]
      have final : (log ++ [d])[log.length]? = some d := by simp
      have bound : ∀ {j e}, (log ++ [d])[j]? = some e → j ≤ log.length := by
        intro j e h
        have := (List.getElem?_eq_some_iff.1 h).1
        simp only [List.length_append, List.length_singleton] at this
        omega
      have old : ∀ {j e}, j < log.length → ((log ++ [d])[j]? = some e ↔ log[j]? = some e) := by
        intro j e h
        rw [List.getElem?_append_left h]
      split
      · rename_i sets
        constructor
        · intro h
          refine ⟨log.length, d, final, sets.1, sets.2, (Option.some.inj h).symm, ?_⟩
          intro j e later h
          exact absurd (bound h) (Nat.not_le.2 later)
        · rintro ⟨i, e, he, concerns, key_eq, rfl, latest⟩
          have here : i = log.length := by
            by_contra other
            have before : i < log.length := Nat.lt_of_le_of_ne (bound he) other
            exact latest log.length d before final sets.2 sets.1
          subst here
          rw [Option.some.inj (final.symm.trans he)]
      · rename_i keeps
        rw [ih]
        constructor
        · rintro ⟨i, e, he, concerns, key_eq, rfl, latest⟩
          have before := (List.getElem?_eq_some_iff.1 he).1
          refine ⟨i, e, (old before).2 he, concerns, key_eq, rfl, ?_⟩
          intro j f later hf key_eq concerns
          rcases Nat.lt_or_eq_of_le (bound hf) with inside | rfl
          · exact latest j f later ((old inside).1 hf) key_eq concerns
          · obtain rfl := Option.some.inj (final.symm.trans hf)
            exact keeps ⟨concerns, key_eq⟩
        · rintro ⟨i, e, he, concerns, key_eq, rfl, latest⟩
          rcases Nat.lt_or_eq_of_le (bound he) with before | rfl
          · refine ⟨i, e, (old before).1 he, concerns, key_eq, rfl, ?_⟩
            intro j f later hf
            have inside := (List.getElem?_eq_some_iff.1 hf).1
            exact latest j f later ((old inside).2 hf)
          · obtain rfl := Option.some.inj (final.symm.trans he)
            exact absurd ⟨concerns, key_eq⟩ keeps

end Rules

end ViewStyle
