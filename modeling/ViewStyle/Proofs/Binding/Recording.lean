/-
What an application sets. A recorded view notes every property that it is asked to set, and is
otherwise the view itself; so the writes of a rule can be listed: what is withdrawn is given back,
and then come the new values. An application of the important properties gives back, too: exactly
those written ones whose important value is not plain.
-/

import ViewStyle.Proofs.Binding.Session

set_option autoImplicit false

namespace ViewStyle

namespace OrderedMap

variable {α β : Type}

theorem nodup_keys (m : OrderedMap α) : m.keys.Nodup :=
  List.pairwise_map.2 (m.sorted.imp fun lt => String.ne_of_lt lt)

theorem nodup_filterMap (m : OrderedMap α) {pick : String × α → Option β} {key : β → String}
    (keeps : ∀ e b, pick e = some b → key b = e.1) :
    ((m.entries.filterMap pick).map key).Nodup := by
  have distinct : m.entries.Pairwise fun a b => a.1 ≠ b.1 :=
    m.sorted.imp fun lt => String.ne_of_lt lt
  refine List.pairwise_map.2 (distinct.filterMap pick fun e e' ne b picked b' picked' => ?_)
  rw [keeps e b picked, keeps e' b' picked']
  exact ne

end OrderedMap

/-- A property that was set, what the view read there before, and what it was set to. -/
structure Write where
  key : String
  found : Option Resolved
  value : Option Resolved

/-- What a write does, whatever was there before. -/
def Write.effect (w : Write) : String × Option Resolved := (w.key, w.value)

/-- A view with the writes to it, from the first to the last. -/
structure Recorded (V : Type) where
  view : V
  log : List Write

variable {V : Type} [Widget V]

instance : Widget (Recorded V) where
  tag r := Widget.tag r.view
  hasProperty r := Widget.hasProperty r.view
  propertyValue r := Widget.propertyValue r.view
  setProperty r key value :=
    ⟨Widget.setProperty r.view key value, r.log ++ [⟨key, Widget.propertyValue r.view key, value⟩]⟩

namespace Binding

def unrecorded (state : Binding × Recorded V) : Binding × V := (state.1, state.2.view)

private theorem unrecorded_giveBack (state : Binding × Recorded V) (key : String) :
    unrecorded (giveBack state key) = giveBack (unrecorded state) key := by
  obtain ⟨b, r⟩ := state
  by_cases written : b.written.contains key = true
  · simp only [giveBack, unrecorded, written, if_true]
    rfl
  · simp only [giveBack, unrecorded, written]
    rfl

private theorem unrecorded_foldl_giveBack (keys : List String) (state : Binding × Recorded V) :
    unrecorded (keys.foldl giveBack state) = keys.foldl giveBack (unrecorded state) := by
  induction keys generalizing state with
  | nil => rfl
  | cons key keys ih => rw [List.foldl_cons, ih, unrecorded_giveBack, List.foldl_cons]

private theorem unrecorded_foldl_set (updates : List (String × Resolved))
    (state : Binding × Recorded V) :
    unrecorded (updates.foldl set state) = updates.foldl set (unrecorded state) := by
  induction updates generalizing state with
  | nil => rfl
  | cons update updates ih => exact ih (set state update)

private theorem unrecorded_write (b : Binding) (r : Recorded V) (rule : Rule) :
    unrecorded (b.write r rule) = b.write r.view rule := by
  unfold write
  rw [unrecorded_foldl_set, unrecorded_foldl_giveBack]
  rfl

theorem apply_false_eq {W : Type} [Widget W] (b : Binding) (view : W) :
    ((b.apply view false).1, (b.apply view false).2.1) =
      (b.write view b.computed.all).1.leftover.foldl giveBack (b.write view b.computed.all) :=
  rfl

theorem apply_recorded (b : Binding) (r : Recorded V) (onlyImportant : Bool) :
    (b.apply r onlyImportant).1 = (b.apply r.view onlyImportant).1 ∧
      (b.apply r onlyImportant).2.1.view = (b.apply r.view onlyImportant).2.1 := by
  cases onlyImportant with
  | true => exact Prod.ext_iff.1 (unrecorded_write b r b.computed.important)
  | false =>
      have written := unrecorded_write b r b.computed.all
      have keys : (b.write r b.computed.all).1.leftover =
          (b.write r.view b.computed.all).1.leftover :=
        congrArg (fun state => state.1.leftover) written
      have all : unrecorded ((b.apply r false).1, (b.apply r false).2.1) =
          ((b.apply r.view false).1, (b.apply r.view false).2.1) := by
        rw [apply_false_eq, apply_false_eq, unrecorded_foldl_giveBack, written, keys]
      exact Prod.ext_iff.1 all

def returns (b : Binding) (keys : List String) : List (String × Option Resolved) :=
  (keys.filter b.written.contains).map fun key => (key, (b.saved.find? key).join)

theorem saved_giveBack {W : Type} [Widget W] (state : Binding × W) {key p : String}
    (other : p ≠ key) : (giveBack state key).1.saved.find? p = state.1.saved.find? p := by
  unfold giveBack
  dsimp only
  split
  · rw [OrderedMap.find?_erase, if_neg other]
  · rfl

private theorem effects_giveBack (state : Binding × Recorded V) (key : String) :
    (giveBack state key).2.log.map Write.effect =
      state.2.log.map Write.effect ++ state.1.returns [key] := by
  obtain ⟨b, r⟩ := state
  by_cases written : b.written.contains key = true
  · simp only [giveBack, returns, written, if_true, List.filter_cons, List.filter_nil]
    exact List.map_append
  · simp [giveBack, returns, written]

theorem effects_foldl_giveBack {keys : List String} (distinct : keys.Nodup)
    (state : Binding × Recorded V) :
    (keys.foldl giveBack state).2.log.map Write.effect =
      state.2.log.map Write.effect ++ state.1.returns keys := by
  induction keys generalizing state with
  | nil => simp [returns]
  | cons key keys ih =>
      obtain ⟨new, distinct⟩ := List.nodup_cons.1 distinct
      -- Giving back one property leaves what was saved of the others.
      have others : (giveBack state key).1.returns keys = state.1.returns keys := by
        have apart : ∀ p ∈ keys, p ≠ key := fun p member same => new (same ▸ member)
        have filtered : keys.filter (giveBack state key).1.written.contains =
            keys.filter state.1.written.contains := by
          refine List.filter_congr fun p member => ?_
          rw [OrderedMap.contains, OrderedMap.contains, written_giveBack, if_neg (apart p member)]
        unfold returns
        rw [filtered]
        refine List.map_congr_left fun p member => ?_
        rw [saved_giveBack state (apart p (List.mem_filter.1 member).1)]
      rw [List.foldl_cons, ih distinct, effects_giveBack, others, List.append_assoc]
      congr 1
      simp only [returns, List.filter_cons]
      split <;> rfl

private theorem effects_foldl_set (updates : List (String × Resolved))
    (state : Binding × Recorded V) :
    (updates.foldl set state).2.log.map Write.effect =
      state.2.log.map Write.effect ++ updates.map fun u => (u.1, some u.2) := by
  induction updates generalizing state with
  | nil => simp
  | cons update updates ih =>
      have first : (set state update).2.log.map Write.effect =
          state.2.log.map Write.effect ++ [(update.1, some update.2)] := List.map_append
      rw [List.foldl_cons, ih, first, List.append_assoc]
      rfl

theorem nodup_withdrawals (b : Binding) (element : Element) (rule : Rule) :
    (b.withdrawals element rule).Nodup := by
  have picked : ((b.withdrawals element rule).map id).Nodup := by
    refine rule.values.nodup_filterMap ?_
    rintro ⟨key, value⟩ p listed
    dsimp only at listed
    split at listed
    · exact (Option.some.inj listed).symm
    · cases listed
  rwa [List.map_id] at picked

/-- What is withdrawn is given back, and then the new values are set. -/
theorem effects_write (b : Binding) (r : Recorded V) (rule : Rule) :
    (b.write r rule).2.log.map Write.effect = r.log.map Write.effect ++
      b.returns (b.withdrawals (Element.ofView r.view) rule) ++
        (b.assignments (Element.ofView r.view) rule).map fun u => (u.1, some u.2) := by
  unfold write
  rw [effects_foldl_set, effects_foldl_giveBack (nodup_withdrawals b _ rule)]
  rfl

/-- A property that the view has, with a value in a rule that it cannot be set to: the value cannot
be computed, or stands for constraints. -/
def Unfit (b : Binding) (element : Element) (rule : Rule) (p : String) : Prop :=
  ∃ value, rule.values.find? p = some value ∧ element.hasProperty p = true ∧
    ∀ r, value.compute (b.surroundings (some element)) = .ok r → r.isPlain = false

/-- A value in a rule that can be computed, and is no constraints. -/
def Fit (b : Binding) (element : Element) (rule : Rule) (p : String) (r : Resolved) : Prop :=
  ∃ value, rule.values.find? p = some value ∧ element.hasProperty p = true ∧
    value.compute (b.surroundings (some element)) = .ok r ∧ r.isPlain = true

theorem change?_cases (b : Binding) (element : Element) (rule : Rule) (p : String) :
    (b.change? element rule p = some .withdraw ∧ b.Unfit element rule p) ∨
      (∃ r, b.Fit element rule p r ∧
        b.change? element rule p =
          some (if b.written.find? p == some r then .keep else .update r)) ∨
      ((rule.values.find? p = none ∨ element.hasProperty p = false) ∧
        (b.change? element rule p = none ∨ b.change? element rule p = some .keep)) := by
  cases listed : rule.values.find? p with
  | none =>
      refine .inr (.inr ⟨.inl rfl, .inl ?_⟩)
      rw [change?, listed]
      rfl
  | some value =>
      have change_eq : b.change? element rule p = some (b.change element p value) := by
        rw [change?, listed]
        rfl
      cases has : element.hasProperty p with
      | false =>
          refine .inr (.inr ⟨.inr rfl, .inr ?_⟩)
          rw [change_eq, change, has]
          rfl
      | true =>
          cases computed : value.compute (b.surroundings (some element)) with
          | error e =>
              refine .inl ⟨?_, value, listed, has, fun r fine => ?_⟩
              · rw [change_eq]
                simp only [change, has, computed, Bool.not_true, Bool.false_eq_true, if_false]
              · cases computed.symm.trans fine
          | ok r =>
              cases plain : r.isPlain with
              | false =>
                  refine .inl ⟨?_, value, listed, has, fun r' fine => ?_⟩
                  · rw [change_eq]
                    cases r with
                    | constraints list =>
                        simp only [change, has, computed, Bool.not_true, Bool.false_eq_true,
                          if_false]
                    | _ => cases plain
                  · cases computed.symm.trans fine
                    exact plain
              | true =>
                  refine .inr (.inl ⟨r, ⟨value, listed, has, computed, plain⟩, ?_⟩)
                  rw [change_eq]
                  cases r with
                  | constraints list => cases plain
                  | _ =>
                      simp only [change, has, computed, Bool.not_true, Bool.false_eq_true, if_false]

theorem Unfit.not_fit {b : Binding} {element : Element} {rule : Rule} {p : String} {r : Resolved}
    (h : b.Unfit element rule p) : ¬b.Fit element rule p r := by
  rintro ⟨value, listed, -, computed, plain⟩
  obtain ⟨value', listed', -, unfit⟩ := h
  cases listed.symm.trans listed'
  exact absurd plain (by simp [unfit r computed])

theorem change?_eq_withdraw {b : Binding} {element : Element} {rule : Rule} {p : String} :
    b.change? element rule p = some .withdraw ↔ b.Unfit element rule p := by
  obtain ⟨withdrawn, unfit⟩ | ⟨r, fit, change⟩ | ⟨absent, change⟩ := b.change?_cases element rule p
  · exact ⟨fun _ => unfit, fun _ => withdrawn⟩
  · refine ⟨fun withdrawn => ?_, fun unfit => absurd fit unfit.not_fit⟩
    rw [change] at withdrawn
    split at withdrawn <;> cases withdrawn
  · refine ⟨fun withdrawn => ?_, ?_⟩
    · rw [withdrawn] at change
      rcases change with change | change <;> cases change
    · rintro ⟨value, listed, has, -⟩
      rw [listed, has] at absent
      rcases absent with absent | absent <;> cases absent

private theorem fit_of_change? {b : Binding} {element : Element} {rule : Rule} {p : String}
    {r : Resolved} (h : b.change? element rule p = some (.update r)) : b.Fit element rule p r := by
  obtain ⟨withdrawn, -⟩ | ⟨r', fit, change⟩ | ⟨-, change⟩ := b.change?_cases element rule p
  · cases h.symm.trans withdrawn
  · rw [change] at h
    split at h
    · cases h
    · cases h
      exact fit
  · rw [h] at change
    rcases change with change | change <;> cases change

private theorem mem_effects_write {b : Binding} {view : V} {rule : Rule} {p : String}
    {value : Option Resolved} :
    (p, value) ∈ (b.write (Recorded.mk view []) rule).2.log.map Write.effect ↔
      (b.written.contains p = true ∧ b.Unfit (Element.ofView view) rule p ∧
        value = (b.saved.find? p).join) ∨
      ∃ r, b.change? (Element.ofView view) rule p = some (.update r) ∧ value = some r := by
  rw [effects_write, List.map_nil, List.nil_append, List.mem_append]
  refine or_congr ?_ ?_
  · simp only [returns, List.mem_map, List.mem_filter, Prod.mk.injEq, mem_withdrawals,
      change?_eq_withdraw]
    constructor
    · rintro ⟨key, ⟨unfit, written⟩, rfl, rfl⟩
      exact ⟨written, unfit, rfl⟩
    · rintro ⟨written, unfit, rfl⟩
      exact ⟨p, ⟨unfit, written⟩, rfl, rfl⟩
  · simp only [List.mem_map, Prod.mk.injEq, Prod.exists]
    constructor
    · rintro ⟨key, r, member, rfl, rfl⟩
      exact ⟨r, mem_assignments.1 member, rfl⟩
    · rintro ⟨r, change, rfl⟩
      exact ⟨p, r, mem_assignments.2 change, rfl, rfl⟩

theorem contains_written_write {b : Binding} {view : V} {rule : Rule} {p : String} :
    (b.write view rule).1.written.contains p = true ↔
      ¬b.Unfit (Element.ofView view) rule p ∧
        (b.written.contains p = true ∨ ∃ r, b.Fit (Element.ofView view) rule p r) := by
  unfold OrderedMap.contains
  rw [written_write]
  obtain ⟨withdrawn, unfit⟩ | ⟨r, fit, change⟩ | ⟨absent, change⟩ :=
    b.change?_cases (Element.ofView view) rule p
  · rw [withdrawn]
    simp [unfit]
  · have ok : ¬b.Unfit (Element.ofView view) rule p := fun unfit => unfit.not_fit fit
    rw [change]
    refine iff_of_true ?_ ⟨ok, .inr ⟨r, fit⟩⟩
    by_cases same : (b.written.find? p == some r) = true
    · rw [if_pos same]
      dsimp only
      cases found : b.written.find? p with
      | none =>
          rw [found] at same
          cases same
      | some r' => rfl
    · rw [if_neg same]
      rfl
  · have unlisted : ¬∃ r, b.Fit (Element.ofView view) rule p r := by
      rintro ⟨r, value, listed, has, -⟩
      rw [listed, has] at absent
      rcases absent with absent | absent <;> cases absent
    have ok : ¬b.Unfit (Element.ofView view) rule p := by
      rintro ⟨value, listed, has, -⟩
      rw [listed, has] at absent
      rcases absent with absent | absent <;> cases absent
    rcases change with change | change <;> (rw [change]; simp [ok, unlisted])

private theorem not_unfit_of_literals {b : Binding} {element : Element} {rule : Rule}
    (literals : ∀ entry ∈ rule.entries, entry.2.isPlugin = false) (p : String) :
    ¬b.Unfit element rule p := by
  rintro ⟨⟨content, raw, important⟩, listed, -, unfit⟩
  have literal := literals _ (OrderedMap.mem_entries.2 listed)
  cases content with
  | literal value => exact Bool.noConfusion (unfit (.literal value) rfl)
  | plugin value => cases literal

/-- An application of the important properties that sets them to their values, and after which
everything that was written still is. -/
structure ResetsNothing (b : Binding) (view : V) : Prop where
  values : ∀ w ∈ (b.apply (Recorded.mk view []) true).2.1.log,
    ∃ r, b.Fit (Element.ofView view) b.computed.important w.key r ∧ w.value = some r
  kept : ∀ p, b.written.contains p = true →
    (b.apply (Recorded.mk view []) true).1.written.contains p = true

/-- An application of the important properties touches no other ones. It sets a property to its
important value, or gives back what was saved if the property is written and that value is unfit;
every such property is given back and no longer written. So it resets nothing if and only if no
written property has an unfit important value. -/
theorem resetsNothing_iff (b : Binding) (view : V) :
    let element := Element.ofView view
    let important := b.computed.important
    let after := b.apply (Recorded.mk view []) true
    (after.1 = (b.apply view true).1 ∧ after.2.1.view = (b.apply view true).2.1) ∧
      (∀ w ∈ after.2.1.log, (∃ r, b.Fit element important w.key r ∧ w.value = some r) ∨
        (b.written.contains w.key = true ∧ b.Unfit element important w.key ∧
          w.value = (b.saved.find? w.key).join)) ∧
      (∀ p, b.written.contains p = true → b.Unfit element important p →
        after.1.written.contains p = false ∧
          ∃ w ∈ after.2.1.log, w.key = p ∧ w.value = (b.saved.find? p).join) ∧
      (b.ResetsNothing view ↔ ∀ p, b.written.contains p = true → ¬b.Unfit element important p) := by
  intro element important after
  have writes : ∀ w ∈ after.2.1.log, (∃ r, b.Fit element important w.key r ∧ w.value = some r) ∨
      (b.written.contains w.key = true ∧ b.Unfit element important w.key ∧
        w.value = (b.saved.find? w.key).join) := by
    intro w member
    have effect : (w.key, w.value) ∈ after.2.1.log.map Write.effect := List.mem_map_of_mem member
    obtain back | ⟨r, change, set⟩ := mem_effects_write.1 effect
    · exact .inr back
    · exact .inl ⟨r, fit_of_change? change, set⟩
  have lost : ∀ p, b.Unfit element important p → after.1.written.contains p = false := by
    intro p unfit
    rw [Bool.eq_false_iff]
    intro kept
    obtain ⟨fit, -⟩ := contains_written_write.1 kept
    exact fit unfit
  refine ⟨apply_recorded b _ true, writes, fun p written unfit => ⟨lost p unfit, ?_⟩, ?_, ?_⟩
  · have back : (p, (b.saved.find? p).join) ∈ after.2.1.log.map Write.effect :=
      mem_effects_write.2 (.inl ⟨written, unfit, rfl⟩)
    obtain ⟨w, member, effect⟩ := List.mem_map.1 back
    obtain ⟨key, value⟩ := Prod.mk.inj effect
    exact ⟨w, member, key, value⟩
  · intro nothing p written unfit
    exact absurd (nothing.kept p written) (by simp [after, lost p unfit])
  · intro fit
    refine ⟨fun w member => ?_, fun p written => ?_⟩
    · obtain set | ⟨written, unfit, -⟩ := writes w member
      · exact set
      · exact absurd unfit (fit w.key written)
    · exact contains_written_write.2 ⟨fit p written, .inl written⟩

end Binding

namespace Session

set_option maxRecDepth 20000 in
/-- An important literal, applied once more on its own: nothing is reset. -/
theorem resetsNothing_iff_literal :
    let label : PropertyList :=
      ⟨"A", (∅ : OrderedMap _).insert "text" (some (.literal (.text "plain")))⟩
    let s : Session Unit PropertyList := (start {} Bundles.empty.load false {} label).run
      [.ask (.load ".A \x7b text: styled !important; \x7d"), .refresh, .apply false]
    s.binding.written.contains "text" = true ∧ s.binding.ResetsNothing s.view := by
  intro label s
  have plain : Token.isPlain ".A \x7b text: styled !important; \x7d" = true := by decide +kernel
  have evaluated : s.binding.written.contains "text" = true ∧
      ∀ entry ∈ s.binding.computed.important.entries, entry.2.isPlugin = false := by
    simp only [s, run, List.foldl_cons, List.foldl_nil, step_load _ plain]
    decide +kernel
  obtain ⟨written, literals⟩ := evaluated
  clear_value s
  refine ⟨written, (Binding.resetsNothing_iff s.binding s.view).2.2.2.2 fun p _ => ?_⟩
  exact Binding.not_unfit_of_literals literals p

set_option maxRecDepth 20000 in
/-- An important constraint over a literal that was applied: the text is given back, although only
the important properties are applied. -/
theorem not_resetsNothing_constraint :
    let label : PropertyList :=
      ⟨"A", (∅ : OrderedMap _).insert "text" (some (.literal (.text "plain")))⟩
    let s : Session Unit PropertyList := (start {} Bundles.empty.load false {} label).run
      [.ask (.load ".A \x7b text: styled; \x7d"), .refresh, .apply false,
        .ask (.load ".A \x7b text: constraint-vfl(\"H:|-[text]-|\") !important; \x7d"), .refresh]
    let after := s.binding.apply (Recorded.mk s.view []) true
    ¬s.binding.ResetsNothing s.view ∧
      (after.2.1.log.map Write.effect == [("text", some (.literal (.text "plain")))]) = true ∧
        s.binding.written.contains "text" = true ∧ after.1.written.contains "text" = false := by
  intro label s after
  have plain : Token.isPlain ".A \x7b text: styled; \x7d" = true := by decide +kernel
  have plain' : Token.isPlain
      ".A \x7b text: constraint-vfl(\"H:|-[text]-|\") !important; \x7d" = true := by decide +kernel
  have given_back : (after.2.1.log.map Write.effect ==
        [("text", some (.literal (.text "plain")))]) = true ∧
      s.binding.written.contains "text" = true ∧ after.1.written.contains "text" = false := by
    simp only [after, s, run, List.foldl_cons, List.foldl_nil, step_load _ plain,
      step_load _ plain']
    decide +kernel
  obtain ⟨effects, written, lost⟩ := given_back
  clear_value s
  refine ⟨fun nothing => ?_, effects, written, lost⟩
  exact Bool.noConfusion (lost.symm.trans (nothing.kept "text" written))

end Session

end ViewStyle
