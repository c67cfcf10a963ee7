/-
Which properties an application sets. Of the values in its rule it sets those that are due: the view
has the property, the value is plain, and what was set there last is not equal to it. All else that
it sets is given back, and no property is set twice. So an application right behind another one sets
nothing, if the values are the same when they are computed once more.
-/

import ViewStyle.Proofs.Binding.Equality
import ViewStyle.Proofs.Binding.Originals

set_option autoImplicit false

namespace ViewStyle

namespace Theme

/-- A theme that requests have led to, between which its files may have changed. -/
inductive Reached {κ : Type} : Theme κ → Prop
  | start (config : Config) (loader : Loader) : Reached (ofConfig config loader)
  | perform {t : Theme κ} (request : Request κ) : Reached t → Reached (t.perform request).1
  | replaceFiles {t : Theme κ} (loader : Loader) : Reached t → Reached { t with loader }

theorem Reached.normal {κ : Type} {t : Theme κ} (h : t.Reached) : t.sheet.rules.Normal := by
  induction h with
  | start config loader => exact Rules.closed_normal.empty
  | perform request _ ih => exact normal_perform ih request
  | replaceFiles loader _ ih => exact ih

end Theme

namespace Binding

/-- A binding that its calls have led to. Every call may be for another view and another theme. -/
inductive Reached : Binding → Prop
  | fresh (automatic : Bool) (environment : Environment) : Reached (fresh automatic environment)
  | setTrait {κ V : Type} [Widget V] {b : Binding} {theme : Theme κ} (view : V)
      (traitTag : Option String) : Reached b → theme.Reached →
        Reached (b.setTrait theme view traitTag).1
  | setEnvironment {κ V : Type} [Widget V] {b : Binding} {theme : Theme κ} (view : V)
      (environment : Environment) : Reached b → theme.Reached →
        Reached (b.setEnvironment theme view environment).1
  | restyle {κ V : Type} [Widget V] {b : Binding} {theme : Theme κ} (view : V) :
      Reached b → theme.Reached → Reached (b.restyle theme view).1
  | apply {V : Type} [Widget V] {b : Binding} (view : V) (onlyImportant : Bool) :
      Reached b → Reached (b.apply view onlyImportant).1

section

variable {V : Type} [Widget V]

private theorem Aligned.apply {b : Binding} (h : b.Aligned) (normal : b.NormalKeys) (view : V)
    (onlyImportant : Bool) : (b.apply view onlyImportant).1.Aligned := by
  rw [← (apply_recorded b (Recorded.mk view []) onlyImportant).1]
  exact Aligned.of_leads h (leads_apply h normal _ onlyImportant)

private theorem aligned_restyle {κ : Type} {b : Binding} (h : b.Aligned) (normal : b.NormalKeys)
    {theme : Theme κ} (rules : theme.sheet.rules.Normal) (view : V) :
    (b.restyle theme view).1.Aligned ∧ (b.restyle theme view).1.NormalKeys := by
  have recomputed := normal.recomputed rules view
  have aligned : (b.recomputed theme view).Aligned := h
  rw [restyle_eq]
  split
  · exact ⟨aligned.apply recomputed view false, recomputed.apply view false⟩
  · exact ⟨aligned, recomputed⟩

theorem Reached.aligned {b : Binding} (h : b.Reached) : b.Aligned ∧ b.NormalKeys := by
  induction h with
  | fresh automatic environment => exact ⟨fun _ => rfl, by refine ⟨?_, ?_, ?_⟩ <;> nofun⟩
  | @setTrait _ _ _ b _ view traitTag _ theme ih =>
      have normal : { b with traitTag }.NormalKeys := ⟨ih.2.all, ih.2.important, ih.2.written⟩
      exact aligned_restyle (b := { b with traitTag }) ih.1 normal theme.normal view
  | @setEnvironment _ _ _ b _ view environment _ theme ih =>
      have normal : { b with environment }.NormalKeys := ⟨ih.2.all, ih.2.important, ih.2.written⟩
      exact aligned_restyle (b := { b with environment }) ih.1 normal theme.normal view
  | restyle view _ theme ih => exact aligned_restyle ih.1 ih.2 theme.normal view
  | apply view onlyImportant _ ih =>
      exact ⟨ih.1.apply ih.2 view onlyImportant, ih.2.apply view onlyImportant⟩

end

/-! The writes of one application. -/

/-- The rule that an application writes. -/
def source (b : Binding) (onlyImportant : Bool) : Rule :=
  if onlyImportant then b.computed.important else b.computed.all

/-- A value that an application has to set: it is fit, and what was set there last is not equal. -/
def Due (b : Binding) (element : Element) (rule : Rule) (p : String) (r : Resolved) : Prop :=
  b.Fit element rule p r ∧ (b.written.find? p == some r) = false

variable {b : Binding} {element : Element} {rule : Rule} {p : String} {r : Resolved}

private theorem Fit.unique {r' : Resolved} (h : b.Fit element rule p r)
    (h' : b.Fit element rule p r') : r = r' := by
  obtain ⟨value, listed, -, computed, -⟩ := h
  obtain ⟨value', listed', -, computed', -⟩ := h'
  cases listed.symm.trans listed'
  cases computed.symm.trans computed'
  rfl

private theorem change?_eq_update :
    b.change? element rule p = some (.update r) ↔ b.Due element rule p r := by
  obtain ⟨withdrawn, unfit⟩ | ⟨r', fit, change⟩ | ⟨absent, change⟩ := b.change?_cases element rule p
  · refine ⟨fun updated => ?_, fun due => absurd due.1 unfit.not_fit⟩
    cases withdrawn.symm.trans updated
  · rw [change]
    constructor
    · intro updated
      split at updated
      · cases updated
      · rename_i different
        cases updated
        exact ⟨fit, Bool.eq_false_iff.2 different⟩
    · rintro ⟨fit', different⟩
      cases fit.unique fit'
      rw [different]
      rfl
  · refine ⟨fun updated => ?_, ?_⟩
    · rw [updated] at change
      rcases change with change | change <;> cases change
    · rintro ⟨⟨value, listed, has, -⟩, -⟩
      rw [listed, has] at absent
      rcases absent with absent | absent <;> cases absent

private theorem nodup_keys_assignments (b : Binding) (element : Element) (rule : Rule) :
    ((b.assignments element rule).map (·.1)).Nodup := by
  refine rule.values.nodup_filterMap ?_
  rintro ⟨key, value⟩ u listed
  dsimp only at listed
  split at listed
  · cases listed
    rfl
  · cases listed

private theorem nodup_leftover (b : Binding) : b.leftover.Nodup :=
  b.written.nodup_keys.filter _

private theorem mem_returns {keys : List String} {value : Option Resolved} :
    (p, value) ∈ b.returns keys ↔
      p ∈ keys ∧ b.written.contains p = true ∧ value = (b.saved.find? p).join := by
  simp only [returns, List.mem_map, List.mem_filter, Prod.mk.injEq]
  constructor
  · rintro ⟨key, ⟨member, written⟩, rfl, rfl⟩
    exact ⟨member, written, rfl⟩
  · rintro ⟨member, written, rfl⟩
    exact ⟨p, ⟨member, written⟩, rfl, rfl⟩

private theorem keys_returns (b : Binding) (keys : List String) :
    (b.returns keys).map Prod.fst = keys.filter b.written.contains := by
  simp [returns, Function.comp_def]

section

variable {V : Type} [Widget V]

def stale (b : Binding) (r : Recorded V) (onlyImportant : Bool) : List (String × Option Resolved) :=
  if onlyImportant then []
  else (b.write r b.computed.all).1.returns (b.write r b.computed.all).1.leftover

private theorem effects_apply (b : Binding) (r : Recorded V) (onlyImportant : Bool) :
    (b.apply r onlyImportant).2.1.log.map Write.effect = r.log.map Write.effect ++
      b.returns (b.withdrawals (Element.ofView r.view) (b.source onlyImportant)) ++
        (b.assignments (Element.ofView r.view) (b.source onlyImportant)).map
          (fun u => (u.1, some u.2)) ++ b.stale r onlyImportant := by
  cases onlyImportant with
  | true => exact (effects_write b r b.computed.important).trans (List.append_nil _).symm
  | false =>
      have applied := congrArg (fun state : Binding × Recorded V => state.2.log.map Write.effect)
        (apply_false_eq b r)
      dsimp only at applied
      rw [applied, effects_foldl_giveBack (nodup_leftover _), effects_write]
      rfl

private theorem count_apply {W : Type} [Widget W] (b : Binding) (view : W) (onlyImportant : Bool) :
    (b.apply view onlyImportant).2.2 =
      (b.assignments (Element.ofView view) (b.source onlyImportant)).length := by
  cases onlyImportant <;> rfl

private theorem mem_stale (aligned : b.Aligned) (normal : b.NormalKeys) (view : V)
    {onlyImportant : Bool} {value : Option Resolved}
    (member : (p, value) ∈ b.stale (Recorded.mk view []) onlyImportant) :
    (b.source onlyImportant).values.find? p = none ∧ b.written.contains p = true ∧
      value = (b.saved.find? p).join := by
  cases onlyImportant with
  | true => cases member
  | false =>
      obtain ⟨left, after, rfl⟩ := mem_returns.1 member
      have unlisted := ((mem_leftover (normal.write _ normal.all)).1 left).2
      rw [(sameStyle_write b _ b.computed.all).computed_eq] at unlisted
      have unchanged : b.change? (Element.ofView (Recorded.mk view [])) b.computed.all p = none := by
        rw [change?, unlisted]
        rfl
      have before : b.written.contains p = true := by
        rw [OrderedMap.contains, written_write, unchanged] at after
        exact after
      obtain ⟨recent, -, fares⟩ := leads_write aligned (Recorded.mk view []) b.computed.all
      refine ⟨unlisted, before, ?_⟩
      cases fares p with
      | kept _ _ saved => rw [saved]
      | styled unwritten => exact Bool.noConfusion (unwritten.symm.trans before)
      | returned _ lost => exact Bool.noConfusion (lost.symm.trans after)
      | unstyled unwritten => exact Bool.noConfusion (unwritten.symm.trans before)

private theorem keys_stale (b : Binding) (r : Recorded V) (onlyImportant : Bool) :
    ((b.stale r onlyImportant).map Prod.fst).Nodup := by
  cases onlyImportant with
  | true => exact List.nodup_nil
  | false =>
      show (((b.write r b.computed.all).1.returns _).map Prod.fst).Nodup
      rw [keys_returns]
      exact (nodup_leftover _).filter _

private theorem nodup_keys_apply (aligned : b.Aligned) (normal : b.NormalKeys) (view : V)
    (onlyImportant : Bool) :
    ((b.apply (Recorded.mk view []) onlyImportant).2.1.log.map (·.key)).Nodup := by
  have keys : (b.apply (Recorded.mk view []) onlyImportant).2.1.log.map (·.key) =
      ((b.apply (Recorded.mk view []) onlyImportant).2.1.log.map Write.effect).map Prod.fst := by
    rw [List.map_map]
    rfl
  rw [keys, effects_apply]
  simp only [List.map_nil, List.nil_append, List.map_append, List.map_map, Function.comp_def,
    keys_returns]
  refine List.nodup_append.2 ⟨List.nodup_append.2
    ⟨(nodup_withdrawals b _ _).filter _, nodup_keys_assignments b _ _, ?_⟩,
    keys_stale b _ onlyImportant, ?_⟩
  · -- What is withdrawn is not set.
    rintro p withdrawn q set rfl
    obtain ⟨⟨q, r⟩, member, rfl⟩ := List.mem_map.1 set
    have change := mem_withdrawals.1 (List.mem_filter.1 withdrawn).1
    cases change.symm.trans (mem_assignments.1 member)
  · -- What is withdrawn or set is in the rule, and what is stale is not.
    rintro p listed q last rfl
    obtain ⟨⟨q, value⟩, member, rfl⟩ := List.mem_map.1 last
    have unlisted := (mem_stale aligned normal view member).1
    have unchanged : b.change? (Element.ofView view) (b.source onlyImportant) q = none := by
      rw [change?, unlisted]
      rfl
    rcases List.mem_append.1 listed with withdrawn | set
    · cases unchanged.symm.trans (mem_withdrawals.1 (List.mem_filter.1 withdrawn).1)
    · obtain ⟨⟨q, r⟩, assigned, rfl⟩ := List.mem_map.1 set
      cases unchanged.symm.trans (mem_assignments.1 assigned)

end

/-! A second application. -/

def Alike : Except PluginError Resolved → Except PluginError Resolved → Prop
  | .ok r, .ok r' => (r == r') = true
  | .error _, .error _ => True
  | _, _ => False

/-- The styled values are computed alike for two states of a view. -/
def Repeats (b : Binding) (element element' : Element) : Prop :=
  ∀ p value, b.computed.all.values.find? p = some value →
    Alike (value.compute (b.surroundings (some element)))
      (value.compute (b.surroundings (some element')))

structure Settled (b : Binding) (element : Element) : Prop where
  not_due : ∀ p r, ¬b.Due element b.computed.all p r
  unwritten_of_unfit : ∀ p, b.Unfit element b.computed.all p → b.written.contains p = false
  unwritten_of_unlisted : ∀ p, b.computed.all.values.find? p = none →
    b.written.contains p = false

section

variable {V : Type} [Widget V]

private theorem foldl_giveBack_of_unwritten {keys : List String} {view : V}
    (unwritten : ∀ key ∈ keys, b.written.contains key = false) :
    keys.foldl giveBack (b, view) = (b, view) := by
  induction keys with
  | nil => rfl
  | cons key keys ih =>
      have unchanged : giveBack (b, view) key = (b, view) := by
        rw [giveBack, unwritten key List.mem_cons_self]
        rfl
      rw [List.foldl_cons, unchanged]
      exact ih fun key member => unwritten key (List.mem_cons_of_mem _ member)

private theorem Settled.apply (normal : b.NormalKeys) {view : V}
    (h : b.Settled (Element.ofView view)) : b.apply view false = (b, view, 0) := by
  have nothing : b.assignments (Element.ofView view) b.computed.all = [] := by
    refine List.eq_nil_iff_forall_not_mem.2 fun ⟨p, r⟩ member => ?_
    exact h.not_due p r (change?_eq_update.1 (mem_assignments.1 member))
  have cleared : (b.withdrawals (Element.ofView view) b.computed.all).foldl giveBack (b, view) =
      (b, view) := by
    refine foldl_giveBack_of_unwritten fun p member => ?_
    exact h.unwritten_of_unfit p (change?_eq_withdraw.1 (mem_withdrawals.1 member))
  have left : b.leftover.foldl giveBack (b, view) = (b, view) := by
    refine foldl_giveBack_of_unwritten fun p member => ?_
    exact h.unwritten_of_unlisted p ((mem_leftover normal).1 member).2
  simp only [Binding.apply, Bool.false_eq_true, if_false, nothing, cleared, List.foldl_nil, left,
    List.length_nil]

private theorem written_of_fit (normal : b.NormalKeys) (view : V)
    (fit : b.Fit (Element.ofView view) b.computed.all p r) :
    ∃ r', (b.apply view false).1.written.find? p = some r' ∧ (r' = r ∨ (r' == r) = true) := by
  have listed : b.computed.all.values.find? p ≠ none := by
    obtain ⟨value, listed, -⟩ := fit
    rw [listed]
    exact Option.some_ne_none value
  rw [written_apply_false normal, if_neg listed, written_write]
  cases kept : b.written.find? p == some r with
  | false =>
      rw [change?_eq_update.2 ⟨fit, kept⟩]
      exact ⟨r, rfl, .inl rfl⟩
  | true =>
      cases found : b.written.find? p with
      | none =>
          rw [found] at kept
          cases kept
      | some r' =>
          have unchanged : b.change? (Element.ofView view) b.computed.all p = some .keep := by
            obtain ⟨-, unfit⟩ | ⟨r'', fit', change⟩ | ⟨absent, -⟩ :=
              b.change?_cases (Element.ofView view) b.computed.all p
            · exact absurd fit unfit.not_fit
            · rw [change, fit'.unique fit, kept]
              rfl
            · obtain ⟨value, listed, has, -⟩ := fit
              rw [listed, has] at absent
              rcases absent with absent | absent <;> cases absent
          rw [unchanged]
          rw [found] at kept
          exact ⟨r', rfl, .inr kept⟩

private theorem settled_apply (normal : b.NormalKeys) (view : V) {element' : Element}
    (fixed : ∀ p, element'.hasProperty p = Widget.hasProperty view p)
    (repeats : b.Repeats (Element.ofView view) element') :
    (b.apply view false).1.Settled element' := by
  have same := sameStyle_apply b view false
  have surroundings : (b.apply view false).1.surroundings (some element') =
      b.surroundings (some element') := by
    rw [Binding.surroundings, same.environment_eq]
    rfl
  have unwritten {p : String} (unfit : b.Unfit (Element.ofView view) b.computed.all p) :
      (b.apply view false).1.written.contains p = false := by
    rw [Bool.eq_false_iff, Ne, contains_written_apply normal]
    rintro ⟨-, fit, -⟩
    obtain ⟨value, listed, has, plain⟩ := unfit
    obtain ⟨r, fit⟩ := fit has
    exact Unfit.not_fit ⟨value, listed, has, plain⟩ fit
  refine ⟨?_, ?_, ?_⟩
  · rintro p r' ⟨⟨value, listed, has, computed, plain⟩, different⟩
    rw [same.computed_eq] at listed
    rw [surroundings] at computed
    have alike := repeats p value listed
    rw [computed] at alike
    cases before : value.compute (b.surroundings (some (Element.ofView view))) with
    | error e =>
        rw [before] at alike
        exact alike
    | ok r =>
        rw [before] at alike
        have equal : (r == r') = true := alike
        have plain_r : r.isPlain = true := (Resolved.isPlain_eq_of_beq equal).trans plain
        have fit : b.Fit (Element.ofView view) b.computed.all p r :=
          ⟨value, listed, (fixed p).symm.trans has, before, plain_r⟩
        obtain ⟨r'', found, kept⟩ := written_of_fit normal view fit
        have again : (r'' == r') = true := by
          rcases kept with rfl | kept
          · exact equal
          · exact Resolved.beq_trans plain_r kept equal
        rw [found] at different
        exact Bool.noConfusion (different.symm.trans again)
  · rintro p ⟨value, listed, has, unfit⟩
    rw [same.computed_eq] at listed
    rw [surroundings] at unfit
    refine unwritten ⟨value, listed, (fixed p).symm.trans has, fun r computed => ?_⟩
    have alike := repeats p value listed
    rw [computed] at alike
    cases after : value.compute (b.surroundings (some element')) with
    | error e =>
        rw [after] at alike
        exact alike.elim
    | ok r' =>
        rw [after] at alike
        exact (Resolved.isPlain_eq_of_beq alike).trans (unfit r' after)
  · intro p unlisted
    rw [same.computed_eq] at unlisted
    rw [OrderedMap.contains, written_apply_false normal, if_pos unlisted]
    rfl

private theorem exists_updates (aligned : b.Aligned) (normal : b.NormalKeys) (view : V)
    (onlyImportant : Bool) :
    ∃ cleared updates left,
      (b.apply (Recorded.mk view []) onlyImportant).2.1.log = cleared ++ updates ++ left ∧
        (b.apply view onlyImportant).2.2 = updates.length ∧
        (∀ p value, (∃ w ∈ updates, w.key = p ∧ w.value = value) ↔
          ∃ r, b.Due (Element.ofView view) (b.source onlyImportant) p r ∧ value = some r) ∧
        ∀ w ∈ cleared ++ left, b.written.contains w.key = true ∧
          w.value = (b.saved.find? w.key).join ∧
            ∀ r, ¬b.Fit (Element.ofView view) (b.source onlyImportant) w.key r := by
  have effects := effects_apply b (Recorded.mk view []) onlyImportant
  rw [List.map_nil, List.nil_append] at effects
  obtain ⟨front, left, log, front_eq, left_eq⟩ := List.map_eq_append_iff.1 effects
  obtain ⟨cleared, updates, rfl, cleared_eq, updates_eq⟩ := List.map_eq_append_iff.1 front_eq
  refine ⟨cleared, updates, left, log, ?_, fun p value => ?_, fun w member => ?_⟩
  · have lengths := congrArg List.length updates_eq
    rw [List.length_map, List.length_map] at lengths
    exact (count_apply b view onlyImportant).trans lengths.symm
  · have listed : (∃ w ∈ updates, w.key = p ∧ w.value = value) ↔
        (p, value) ∈ updates.map Write.effect := by
      simp only [List.mem_map, Write.effect, Prod.mk.injEq]
    rw [listed, updates_eq]
    simp only [List.mem_map, Prod.mk.injEq, Prod.exists]
    constructor
    · rintro ⟨key, r, assigned, rfl, rfl⟩
      exact ⟨r, change?_eq_update.1 (mem_assignments.1 assigned), rfl⟩
    · rintro ⟨r, due, rfl⟩
      exact ⟨p, r, mem_assignments.2 (change?_eq_update.2 due), rfl, rfl⟩
  · rcases List.mem_append.1 member with first | last
    · have effect : (w.key, w.value) ∈ cleared.map Write.effect := List.mem_map_of_mem first
      rw [cleared_eq] at effect
      obtain ⟨withdrawn, written, value⟩ := mem_returns.1 effect
      have unfit := change?_eq_withdraw.1 (mem_withdrawals.1 withdrawn)
      exact ⟨written, value, fun r => unfit.not_fit⟩
    · have effect : (w.key, w.value) ∈ left.map Write.effect := List.mem_map_of_mem last
      rw [left_eq] at effect
      obtain ⟨unlisted, written, value⟩ := mem_stale aligned normal view effect
      refine ⟨written, value, fun r fit => ?_⟩
      obtain ⟨declared, listed, -⟩ := fit
      cases unlisted.symm.trans listed

/-- The writes of an application are those of the values that are due, as many as it counts, and
between others that give something back; no property is set twice. If the values are computed alike
once more and the view has the same properties, a second application changes nothing. And the
binding has saved of what it has written, and of nothing else. -/
theorem apply_minimal (reached : b.Reached) (view : V) :
    let element := Element.ofView view
    let first := b.apply view false
    (∀ onlyImportant,
      let rule := b.source onlyImportant
      let after := b.apply (Recorded.mk view []) onlyImportant
      (after.1, after.2.1.view, after.2.2) = b.apply view onlyImportant ∧
        (after.2.1.log.map (·.key)).Nodup ∧
        ∃ cleared updates left, after.2.1.log = cleared ++ updates ++ left ∧
          (b.apply view onlyImportant).2.2 = updates.length ∧
          (∀ p value, (∃ w ∈ updates, w.key = p ∧ w.value = value) ↔
            ∃ r, b.Due element rule p r ∧ value = some r) ∧
          ∀ w ∈ cleared ++ left, b.written.contains w.key = true ∧
            w.value = (b.saved.find? w.key).join ∧ ∀ r, ¬b.Fit element rule w.key r) ∧
      ((∀ p, Widget.hasProperty first.2.1 p = Widget.hasProperty view p) →
        b.Repeats element (Element.ofView first.2.1) →
          first.1.apply (Recorded.mk first.2.1 []) false =
            (first.1, Recorded.mk first.2.1 [], 0)) ∧
      ∀ p, b.saved.contains p = b.written.contains p := by
  obtain ⟨aligned, normal⟩ := reached.aligned
  intro element first
  refine ⟨fun onlyImportant => ⟨?_, nodup_keys_apply aligned normal view onlyImportant,
    exists_updates aligned normal view onlyImportant⟩, fun fixed repeats => ?_, aligned⟩
  · obtain ⟨binding, shown⟩ := apply_recorded b (Recorded.mk view []) onlyImportant
    have counted := (count_apply b (Recorded.mk view []) onlyImportant).trans
      (count_apply b view onlyImportant).symm
    exact Prod.ext binding (Prod.ext shown counted)
  · have settled : first.1.Settled (Element.ofView (Recorded.mk first.2.1 [])) :=
      settled_apply normal view fixed repeats
    exact settled.apply (normal.apply view false)

private theorem repeats_of_literals {element' : Element}
    (literals : ∀ entry ∈ b.computed.all.entries,
      entry.2.isPlugin = false ∧ (entry.2.content == entry.2.content) = true) :
    b.Repeats element element' := by
  rintro p ⟨content, raw, important⟩ listed
  obtain ⟨literal, equal⟩ := literals _ (OrderedMap.mem_entries.2 listed)
  cases content with
  | literal value => exact equal
  | plugin value => cases literal

end

end Binding

namespace Session

variable {κ V : Type} [Widget V]

theorem reached_run (config : Config) (loader : Loader) (automatic : Bool)
    (environment : Environment) (view : V) (actions : List (Action κ)) :
    let s := (start config loader automatic environment view).run actions
    s.theme.Reached ∧ s.binding.Reached := by
  have step (s : Session κ V) (action : Action κ) (h : s.theme.Reached ∧ s.binding.Reached) :
      (s.step action).theme.Reached ∧ (s.step action).binding.Reached := by
    obtain ⟨theme, binding⟩ := h
    cases action with
    | ask request => exact ⟨.perform request theme, binding⟩
    | replaceFiles loader => exact ⟨.replaceFiles loader theme, binding⟩
    | setTrait traitTag => exact ⟨theme, .setTrait s.view traitTag binding theme⟩
    | setEnvironment environment => exact ⟨theme, .setEnvironment s.view environment binding theme⟩
    | refresh => exact ⟨theme, .restyle s.view binding theme⟩
    | apply onlyImportant => exact ⟨theme, .apply s.view onlyImportant binding⟩
  have run (s : Session κ V) (h : s.theme.Reached ∧ s.binding.Reached) :
      (s.run actions).theme.Reached ∧ (s.run actions).binding.Reached := by
    induction actions generalizing s with
    | nil => exact h
    | cons action actions ih => exact ih (s.step action) (step s action h)
  exact run _ ⟨.start config loader, .fresh automatic environment⟩

set_option maxRecDepth 20000 in
/-- A text that is styled once, and not again. -/
theorem apply_minimal_text :
    let label : PropertyList :=
      ⟨"A", (∅ : OrderedMap _).insert "text" (some (.literal (.text "plain")))⟩
    let s : Session Unit PropertyList := (start {} Bundles.empty.load false {} label).run
      [.ask (.load ".A \x7b text: styled !important; \x7d"), .refresh]
    let first := s.binding.apply s.view false
    s.binding.Reached ∧
      (∀ p, Widget.hasProperty first.2.1 p = Widget.hasProperty s.view p) ∧
      s.binding.Repeats (Element.ofView s.view) (Element.ofView first.2.1) ∧ first.2.2 = 1 ∧
      first.1.apply (Recorded.mk first.2.1 []) false = (first.1, Recorded.mk first.2.1 [], 0) := by
  intro label s first
  have plain : Token.isPlain ".A \x7b text: styled !important; \x7d" = true := by decide +kernel
  have evaluated : first.2.2 = 1 ∧ ∀ entry ∈ s.binding.computed.all.entries,
      entry.2.isPlugin = false ∧ (entry.2.content == entry.2.content) = true := by
    simp only [first, s, run, List.foldl_cons, List.foldl_nil, step_load _ plain]
    decide +kernel
  have reached : s.binding.Reached := (reached_run {} _ false {} label _).2
  have sound : Sound label s := (sound_start {} _ false {} label).run _
  have fixed (p : String) : Widget.hasProperty first.2.1 p = Widget.hasProperty s.view p :=
    ((sound.tracks.apply false).hasProperty_eq p).trans (sound.tracks.hasProperty_eq p).symm
  obtain ⟨once, literals⟩ := evaluated
  have repeats : s.binding.Repeats (Element.ofView s.view) (Element.ofView first.2.1) :=
    Binding.repeats_of_literals literals
  exact ⟨reached, fixed, repeats, once,
    (Binding.apply_minimal reached s.view).2.1 fixed repeats⟩

end Session

end ViewStyle
