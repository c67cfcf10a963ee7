/-
What one application does to a view that stores its properties. A binding tracks such a view: it
knows which properties differ from what the view had before, and what that was. From this it
follows which value every property has after an application.
-/

import ViewStyle.Binding
import ViewStyle.Proofs.Stylesheet.NormalKeys

set_option autoImplicit false

namespace ViewStyle

/-- Views that store their properties: setting one changes neither another one nor which ones
there are. -/
class LawfulWidget (V : Type) [Widget V] : Prop where
  hasProperty_setProperty (view : V) (p q : String) (value : Option Resolved) :
    Widget.hasProperty view p = true →
      Widget.hasProperty (Widget.setProperty view p value) q = Widget.hasProperty view q
  propertyValue_setProperty (view : V) (p q : String) (value : Option Resolved) :
    Widget.hasProperty view p = true →
      Widget.propertyValue (Widget.setProperty view p value) q =
        if q = p then value else Widget.propertyValue view q

/-- Constraints are not values of properties. -/
def Resolved.isPlain : Resolved → Bool
  | .constraints _ => false
  | _ => true

namespace Binding

/-- The value that the style gives a property of a view. Only properties that the view has get one,
and only if it can be computed and is plain. -/
def styled? (b : Binding) (element : Element) (p : String) : Option Resolved :=
  match b.computed.all.values.find? p with
  | none => none
  | some value =>
      if element.hasProperty p then
        (value.compute (b.surroundings (some element))).toOption.filter Resolved.isPlain
      else none

def SameStyle (b b' : Binding) : Prop := b' = { b with written := b'.written, saved := b'.saved }

private theorem SameStyle.refl (b : Binding) : b.SameStyle b := rfl

theorem SameStyle.trans {b₁ b₂ b₃ : Binding} (first : b₁.SameStyle b₂) (second : b₂.SameStyle b₃) :
    b₁.SameStyle b₃ := by
  unfold SameStyle at *
  rw [second, first]

theorem SameStyle.computed_eq {b b' : Binding} (h : b.SameStyle b') :
    b'.computed = b.computed := by
  unfold SameStyle at h
  rw [h]

theorem SameStyle.environment_eq {b b' : Binding} (h : b.SameStyle b') :
    b'.environment = b.environment := by
  unfold SameStyle at h
  rw [h]

def change? (b : Binding) (element : Element) (rule : Rule) (p : String) : Option Change :=
  (rule.values.find? p).map (b.change element p)

theorem mem_withdrawals {b : Binding} {element : Element} {rule : Rule} {p : String} :
    p ∈ b.withdrawals element rule ↔ b.change? element rule p = some .withdraw := by
  simp only [withdrawals, change?, List.mem_filterMap, Prod.exists, Rule.entries,
    OrderedMap.mem_entries, Option.map_eq_some_iff]
  constructor
  · rintro ⟨key, value, found, h⟩
    split at h
    · cases h
      exact ⟨value, found, ‹_›⟩
    · cases h
  · rintro ⟨value, found, change⟩
    exact ⟨p, value, found, by rw [change]⟩

theorem mem_assignments {b : Binding} {element : Element} {rule : Rule} {p : String}
    {r : Resolved} :
    (p, r) ∈ b.assignments element rule ↔ b.change? element rule p = some (.update r) := by
  simp only [assignments, change?, List.mem_filterMap, Prod.exists, Rule.entries,
    OrderedMap.mem_entries, Option.map_eq_some_iff]
  constructor
  · rintro ⟨key, value, found, h⟩
    split at h
    · cases h
      exact ⟨value, found, ‹_›⟩
    · cases h
  · rintro ⟨value, found, change⟩
    exact ⟨p, value, found, by rw [change]⟩

private theorem hasProperty_of_change? {b : Binding} {element : Element} {rule : Rule} {p : String}
    {r : Resolved} (h : b.change? element rule p = some (.update r)) :
    element.hasProperty p = true := by
  obtain ⟨value, -, updated⟩ := Option.map_eq_some_iff.1 h
  unfold change at updated
  split at updated
  · cases updated
  · rename_i has
    simpa using has

private theorem change_of_styled?_eq_none {b : Binding} {element : Element} {p : String}
    {value : Value} (listed : b.computed.all.values.find? p = some value)
    (has : element.hasProperty p = true) (h : b.styled? element p = none) :
    b.change element p value = .withdraw := by
  simp only [styled?, listed, has, if_true] at h
  simp only [change, has, Bool.not_true, Bool.false_eq_true, if_false]
  cases computed : value.compute (b.surroundings (some element)) with
  | error e => rfl
  | ok r =>
      rw [computed] at h
      cases r with
      | literal => cases h
      | constraints => rfl
      | custom => cases h

private theorem change_of_styled? {b : Binding} {element : Element} {p : String} {value : Value}
    {r : Resolved} (listed : b.computed.all.values.find? p = some value)
    (h : b.styled? element p = some r) :
    b.change element p value =
      if b.written.find? p == some r then .keep else .update r := by
  simp only [styled?, listed, Option.ite_none_right_eq_some] at h
  obtain ⟨has, h⟩ := h
  simp only [change, has, Bool.not_true, Bool.false_eq_true, if_false]
  cases computed : value.compute (b.surroundings (some element)) with
  | error e =>
      rw [computed] at h
      cases h
  | ok r' =>
      rw [computed] at h
      cases r' with
      | literal =>
          cases h
          rfl
      | constraints => cases h
      | custom =>
          cases h
          rfl

section

variable {V : Type} [Widget V]

private theorem sameStyle_giveBack (state : Binding × V) (key : String) :
    state.1.SameStyle (giveBack state key).1 := by
  unfold giveBack
  dsimp only
  split <;> rfl

private theorem sameStyle_set (state : Binding × V) (update : String × Resolved) :
    state.1.SameStyle (set state update).1 :=
  rfl

theorem sameStyle_foldl_giveBack (keys : List String) (state : Binding × V) :
    state.1.SameStyle (keys.foldl giveBack state).1 := by
  induction keys generalizing state with
  | nil => exact SameStyle.refl _
  | cons key keys ih => exact (sameStyle_giveBack state key).trans (ih _)

private theorem sameStyle_foldl_set (updates : List (String × Resolved)) (state : Binding × V) :
    state.1.SameStyle (updates.foldl set state).1 := by
  induction updates generalizing state with
  | nil => exact SameStyle.refl _
  | cons update updates ih => exact (sameStyle_set state update).trans (ih _)

theorem written_giveBack (state : Binding × V) (key p : String) :
    (giveBack state key).1.written.find? p =
      if p = key then none else state.1.written.find? p := by
  unfold giveBack
  dsimp only
  split
  · rw [OrderedMap.find?_erase]
  · rename_i absent
    split
    · rename_i here
      subst here
      simpa [OrderedMap.contains] using absent
    · rfl

theorem written_set (state : Binding × V) (update : String × Resolved) (p : String) :
    (set state update).1.written.find? p =
      if p = update.1 then some update.2 else state.1.written.find? p :=
  OrderedMap.find?_insert _ _ _ _

theorem written_foldl_giveBack (keys : List String) (state : Binding × V) (p : String) :
    (keys.foldl giveBack state).1.written.find? p =
      if p ∈ keys then none else state.1.written.find? p := by
  induction keys generalizing state with
  | nil => simp
  | cons key keys ih =>
      rw [List.foldl_cons, ih, written_giveBack]
      by_cases later : p ∈ keys
      · simp [later]
      · by_cases here : p = key <;> simp [later, here]

private theorem written_foldl_set_of_notMem {updates : List (String × Resolved)}
    (state : Binding × V) {p : String} (h : ∀ r, (p, r) ∉ updates) :
    (updates.foldl set state).1.written.find? p = state.1.written.find? p := by
  induction updates generalizing state with
  | nil => rfl
  | cons update updates ih =>
      have other : p ≠ update.1 := by
        rintro rfl
        exact h update.2 List.mem_cons_self
      have rest : ∀ r, (p, r) ∉ updates := fun r member => h r (List.mem_cons_of_mem _ member)
      rw [List.foldl_cons, ih _ rest, written_set, if_neg other]

private theorem written_foldl_set_of_mem {updates : List (String × Resolved)} (state : Binding × V)
    {p : String} {r : Resolved} (member : (p, r) ∈ updates)
    (unique : ∀ r', (p, r') ∈ updates → r' = r) :
    (updates.foldl set state).1.written.find? p = some r := by
  induction updates generalizing state with
  | nil => cases member
  | cons update updates ih =>
      have unique_rest : ∀ r', (p, r') ∈ updates → r' = r :=
        fun r' h => unique r' (List.mem_cons_of_mem _ h)
      rw [List.foldl_cons]
      by_cases later : (p, r) ∈ updates
      · exact ih _ later unique_rest
      · have absent : ∀ r', (p, r') ∉ updates := by
          intro r' h
          exact later (unique_rest r' h ▸ h)
        rw [written_foldl_set_of_notMem _ absent, written_set]
        rcases List.mem_cons.1 member with here | there
        · rw [← here, if_pos rfl]
        · exact absurd there later

/-- The binding knows what has become of a view since it was `base`. -/
structure Tracks (base : V) (b : Binding) (view : V) : Prop where
  hasProperty_eq : ∀ p, Widget.hasProperty view p = Widget.hasProperty base p
  hasProperty_of_written : ∀ p, (b.written.find? p).isSome → Widget.hasProperty base p = true
  propertyValue_eq : ∀ p, Widget.propertyValue view p =
    (b.written.find? p).or (Widget.propertyValue base p)
  saved_eq : ∀ p, b.saved.find? p = (b.written.find? p).map fun _ => Widget.propertyValue base p

theorem tracks_fresh (view : V) (automatic : Bool) (environment : Environment) :
    Tracks view (fresh automatic environment) view where
  hasProperty_eq _ := rfl
  hasProperty_of_written _ h := by cases h
  propertyValue_eq _ := rfl
  saved_eq _ := rfl

variable {base view : V} {b : Binding}

theorem Tracks.of_eq {b' : Binding} (h : Tracks base b view) (written : b'.written = b.written)
    (saved : b'.saved = b.saved) : Tracks base b' view where
  hasProperty_eq := h.hasProperty_eq
  hasProperty_of_written p := written ▸ h.hasProperty_of_written p
  propertyValue_eq p := written ▸ h.propertyValue_eq p
  saved_eq p := by
    rw [written, saved]
    exact h.saved_eq p

section

variable [LawfulWidget V]

private theorem Tracks.giveBack (h : Tracks base b view) (key : String) :
    Tracks base (giveBack (b, view) key).1 (giveBack (b, view) key).2 := by
  by_cases present : b.written.contains key = true
  · obtain ⟨r, found⟩ := Option.isSome_iff_exists.1 present
    have has : Widget.hasProperty view key = true := by
      rw [h.hasProperty_eq]
      exact h.hasProperty_of_written key present
    have original : (b.saved.find? key).join = Widget.propertyValue base key := by
      rw [h.saved_eq, found]
      rfl
    simp only [Binding.giveBack, present, if_true, original]
    refine ⟨fun p => ?_, fun p written => ?_, fun p => ?_, fun p => ?_⟩
    · rw [LawfulWidget.hasProperty_setProperty _ _ _ _ has, h.hasProperty_eq]
    · rw [OrderedMap.find?_erase] at written
      split at written
      · cases written
      · exact h.hasProperty_of_written p written
    · rw [LawfulWidget.propertyValue_setProperty _ _ _ _ has, OrderedMap.find?_erase,
        h.propertyValue_eq]
      split
      · rename_i here
        rw [here, Option.none_or]
      · rfl
    · rw [OrderedMap.find?_erase, OrderedMap.find?_erase, h.saved_eq]
      split <;> rfl
  · rw [Binding.giveBack, if_neg present]
    exact h

private theorem Tracks.set (h : Tracks base b view) (update : String × Resolved)
    (has : Widget.hasProperty base update.1 = true) :
    Tracks base (set (b, view) update).1 (set (b, view) update).2 := by
  obtain ⟨key, value⟩ := update
  have has_now : Widget.hasProperty view key = true := by rw [h.hasProperty_eq, has]
  refine ⟨fun p => ?_, fun p written => ?_, fun p => ?_, fun p => ?_⟩
  · exact (LawfulWidget.hasProperty_setProperty _ _ _ _ has_now).trans (h.hasProperty_eq p)
  · rw [written_set] at written
    split at written
    · rename_i here
      exact here ▸ has
    · exact h.hasProperty_of_written p written
  · rw [written_set]
    refine (LawfulWidget.propertyValue_setProperty _ _ _ _ has_now).trans ?_
    rw [h.propertyValue_eq]
    split <;> rfl
  · -- What is saved is what the view had before the first time, not what it has now.
    have saved_eq : (Binding.set (b, view) (key, value)).1.saved.find? p =
        if p = key then some (Widget.propertyValue base key) else b.saved.find? p := by
      cases found : b.written.find? key with
      | none =>
          have original : Widget.propertyValue view key = Widget.propertyValue base key := by
            rw [h.propertyValue_eq, found, Option.none_or]
          have unsaved : b.saved.contains key = false := by
            simp [OrderedMap.contains, h.saved_eq, found]
          simp only [Binding.set, unsaved, original]
          exact OrderedMap.find?_insert _ _ _ _
      | some r =>
          have saved : b.saved.find? key = some (Widget.propertyValue base key) := by
            rw [h.saved_eq, found]
            rfl
          have contained : b.saved.contains key = true := by simp [OrderedMap.contains, saved]
          simp only [Binding.set, contained, if_true]
          split
          · rename_i here
            rw [here, saved]
          · rfl
    rw [saved_eq, written_set, h.saved_eq]
    split
    · rename_i here
      rw [here]
      rfl
    · rfl

private theorem Tracks.foldl_giveBack (h : Tracks base b view) (keys : List String) :
    Tracks base (keys.foldl Binding.giveBack (b, view)).1
      (keys.foldl Binding.giveBack (b, view)).2 := by
  induction keys generalizing b view with
  | nil => exact h
  | cons key keys ih => exact ih (h.giveBack key)

private theorem Tracks.foldl_set (h : Tracks base b view) {updates : List (String × Resolved)}
    (has : ∀ p r, (p, r) ∈ updates → Widget.hasProperty base p = true) :
    Tracks base (updates.foldl Binding.set (b, view)).1 (updates.foldl Binding.set (b, view)).2 := by
  induction updates generalizing b view with
  | nil => exact h
  | cons update updates ih =>
      exact ih (h.set update (has _ _ List.mem_cons_self))
        fun p r member => has p r (List.mem_cons_of_mem _ member)

def write (b : Binding) (view : V) (rule : Rule) : Binding × V :=
  (b.assignments (Element.ofView view) rule).foldl Binding.set
    ((b.withdrawals (Element.ofView view) rule).foldl Binding.giveBack (b, view))

omit [LawfulWidget V] in
theorem sameStyle_write (b : Binding) (view : V) (rule : Rule) :
    b.SameStyle (b.write view rule).1 :=
  (sameStyle_foldl_giveBack _ (b, view)).trans (sameStyle_foldl_set _ _)

private theorem Tracks.write (h : Tracks base b view) (rule : Rule) :
    Tracks base (b.write view rule).1 (b.write view rule).2 := by
  refine (h.foldl_giveBack _).foldl_set fun p r member => ?_
  have has := hasProperty_of_change? (mem_assignments.1 member)
  exact h.hasProperty_eq p ▸ has

theorem Tracks.apply (h : Tracks base b view) (onlyImportant : Bool) :
    Tracks base (b.apply view onlyImportant).1 (b.apply view onlyImportant).2.1 := by
  cases onlyImportant with
  | true => exact h.write b.computed.important
  | false => exact (h.write b.computed.all).foldl_giveBack _

omit [LawfulWidget V] in
theorem written_write (b : Binding) (view : V) (rule : Rule) (p : String) :
    (b.write view rule).1.written.find? p =
      match b.change? (Element.ofView view) rule p with
      | some .withdraw => none
      | some (.update r) => some r
      | _ => b.written.find? p := by
  unfold write
  split
  · rename_i change
    have unassigned : ∀ r, (p, r) ∉ b.assignments (Element.ofView view) rule := by
      intro r member
      rw [mem_assignments, change] at member
      cases member
    rw [written_foldl_set_of_notMem _ unassigned, written_foldl_giveBack,
      if_pos (mem_withdrawals.2 change)]
  · rename_i r change
    refine written_foldl_set_of_mem _ (mem_assignments.2 change) fun r' member => ?_
    rw [mem_assignments, change] at member
    cases member
    rfl
  · rename_i not_withdrawn not_updated
    have unassigned : ∀ r, (p, r) ∉ b.assignments (Element.ofView view) rule :=
      fun r member => not_updated r (mem_assignments.1 member)
    rw [written_foldl_set_of_notMem _ unassigned, written_foldl_giveBack,
      if_neg fun member => not_withdrawn (mem_withdrawals.1 member)]

/-- All keys that the binding works with are paths in normal form. -/
structure NormalKeys (b : Binding) : Prop where
  all : ∀ p value, b.computed.all.values.find? p = some value → KeyPath.Normal p
  important : ∀ p value, b.computed.important.values.find? p = some value → KeyPath.Normal p
  written : ∀ p r, b.written.find? p = some r → KeyPath.Normal p

omit [LawfulWidget V] in
theorem NormalKeys.write {b : Binding} (h : b.NormalKeys) (view : V) {rule : Rule}
    (normal : ∀ p value, rule.values.find? p = some value → KeyPath.Normal p) :
    (b.write view rule).1.NormalKeys := by
  have same := (sameStyle_write b view rule).computed_eq
  refine ⟨same ▸ h.all, same ▸ h.important, fun p r found => ?_⟩
  rw [written_write] at found
  split at found
  · cases found
  · rename_i change
    obtain ⟨value, listed, -⟩ := Option.map_eq_some_iff.1 change
    exact normal p value listed
  · exact h.written p r found

omit [LawfulWidget V] in
private theorem NormalKeys.foldl_giveBack {state : Binding × V} (h : state.1.NormalKeys)
    (keys : List String) : (keys.foldl Binding.giveBack state).1.NormalKeys := by
  have same := (sameStyle_foldl_giveBack keys state).computed_eq
  refine ⟨same ▸ h.all, same ▸ h.important, fun p r found => ?_⟩
  rw [written_foldl_giveBack] at found
  split at found
  · cases found
  · exact h.written p r found

omit [LawfulWidget V] in
theorem NormalKeys.apply {b : Binding} (h : b.NormalKeys) (view : V) (onlyImportant : Bool) :
    (b.apply view onlyImportant).1.NormalKeys := by
  cases onlyImportant with
  | true => exact h.write view h.important
  | false => exact (h.write view h.all).foldl_giveBack _

omit [LawfulWidget V] in
theorem mem_leftover {b : Binding} (h : b.NormalKeys) {p : String} :
    p ∈ b.leftover ↔ (b.written.find? p).isSome ∧ b.computed.all.values.find? p = none := by
  simp only [leftover, OrderedMap.keys, List.mem_filter, List.mem_map, Prod.exists,
    OrderedMap.mem_entries, exists_and_right, exists_eq_right, Option.isSome_iff_exists]
  refine and_congr_right fun ⟨r, found⟩ => ?_
  have normal : (KeyPath.ofText p).text = p := h.written p r found
  simp [Rule.contains, Rule.get?, normal]

/-- A property reads the value that the style gives it, or one that is equal to that; without such a
value it reads what it read before it was styled. -/
def Shows (styled original read : Option Resolved) : Prop :=
  match styled with
  | some r => ∃ r', read = some r' ∧ (r' = r ∨ (r' == r) = true)
  | none => read = original

omit [LawfulWidget V] in
theorem written_apply_false (normal : b.NormalKeys) (view : V) (p : String) :
    (b.apply view false).1.written.find? p =
      if b.computed.all.values.find? p = none then none
      else (b.write view b.computed.all).1.written.find? p := by
  have applied : (b.apply view false).1 = ((b.write view b.computed.all).1.leftover.foldl
      Binding.giveBack (b.write view b.computed.all)).1 := rfl
  have leftover := mem_leftover (p := p) (normal.write view normal.all)
  rw [(sameStyle_write b view b.computed.all).computed_eq] at leftover
  rw [applied, written_foldl_giveBack]
  by_cases listed : b.computed.all.values.find? p = none
  · rw [if_pos listed]
    split
    · rfl
    · rename_i kept
      exact Option.not_isSome_iff_eq_none.1 fun found => kept (leftover.2 ⟨found, listed⟩)
  · rw [if_neg listed, if_neg fun member => listed (leftover.1 member).2]

/-- After everything was applied a view shows its style and nothing else. -/
theorem Tracks.shows (h : Tracks base b view) (normal : b.NormalKeys) (p : String) :
    Shows (b.styled? (Element.ofView view) p) (Widget.propertyValue base p)
      (Widget.propertyValue (b.apply view false).2.1 p) := by
  rw [(h.apply false).propertyValue_eq, written_apply_false normal, written_write]
  cases listed : b.computed.all.values.find? p with
  | none =>
      have unstyled : b.styled? (Element.ofView view) p = none := by simp only [styled?, listed]
      rw [unstyled, if_pos rfl]
      exact Option.none_or
  | some value =>
      have change_eq : b.change? (Element.ofView view) b.computed.all p =
          some (b.change (Element.ofView view) p value) := by
        rw [change?, listed]
        rfl
      rw [if_neg (Option.some_ne_none value), change_eq]
      cases styled : b.styled? (Element.ofView view) p with
      | none =>
          cases has : (Element.ofView view).hasProperty p with
          | true =>
              rw [change_of_styled?_eq_none listed has styled]
              exact Option.none_or
          | false =>
              have kept : b.change (Element.ofView view) p value = .keep := by
                simp only [change, has, Bool.not_false, if_true]
              have unwritten : b.written.find? p = none := by
                refine Option.not_isSome_iff_eq_none.1 fun found => ?_
                have had := (h.hasProperty_eq p).trans (h.hasProperty_of_written p found)
                exact Bool.noConfusion (has.symm.trans had)
              rw [kept]
              dsimp only
              rw [unwritten]
              exact Option.none_or
      | some r =>
          rw [change_of_styled? listed styled]
          by_cases kept : (b.written.find? p == some r) = true
          · obtain ⟨r', found⟩ : ∃ r', b.written.find? p = some r' := by
              cases found : b.written.find? p with
              | none =>
                  rw [found] at kept
                  cases kept
              | some r' => exact ⟨r', rfl⟩
            rw [if_pos kept]
            dsimp only
            rw [found] at kept ⊢
            exact ⟨r', rfl, .inr kept⟩
          · rw [if_neg kept]
            exact ⟨r, rfl, .inl rfl⟩

end

end

end Binding

end ViewStyle
