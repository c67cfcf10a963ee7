/-
What a view had before it was styled. Between the actions of a session the view may turn into any
other one, with other properties set to other values. All along, the binding has saved of every
property that it has written what the view read when the property was set first, and that is what
an application of all properties sets those to that it does not write any more. What it keeps is
styled and fit, unless the view has lost the property: then the property stays written.
-/

import Mathlib.Data.List.Induction
import ViewStyle.Proofs.Binding.Recording

set_option autoImplicit false

namespace ViewStyle

namespace Binding

/-- Something is saved of the written properties, and of no other ones. -/
def Aligned (b : Binding) : Prop := ∀ p, b.saved.contains p = b.written.contains p

/-- How a property fares in some writes: it stays written, with the same value saved; it is set, and
what it read at the first of the writes to it is saved; it gets the saved value back; or it is not
touched. -/
inductive Fares (b b' : Binding) (recent : List Write) (p : String) : Prop
  | kept (before : b.written.contains p = true) (after : b'.written.contains p = true)
      (saved : b'.saved.find? p = b.saved.find? p)
  | styled (before : b.written.contains p = false) (after : b'.written.contains p = true)
      (w : Write) (first : recent.find? (·.key == p) = some w)
      (saved : b'.saved.find? p = some w.found)
  | returned (before : b.written.contains p = true) (after : b'.written.contains p = false)
      (unsaved : b'.saved.contains p = false) (w : Write) (member : w ∈ recent) (key : w.key = p)
      (value : w.value = (b.saved.find? p).join)
  | unstyled (before : b.written.contains p = false) (after : b'.written.contains p = false)
      (unsaved : b'.saved.contains p = false) (untouched : recent.find? (·.key == p) = none)

private theorem Aligned.fares_of_eq {b b' : Binding} (h : b.Aligned)
    (written : b'.written = b.written) (saved : b'.saved = b.saved) (p : String) :
    Fares b b' [] p := by
  cases here : b.written.contains p with
  | true => exact .kept here (written ▸ here) (saved ▸ rfl)
  | false => exact .unstyled here (written ▸ here) (saved ▸ (h p).trans here) rfl

private theorem Aligned.after {b b' : Binding} {recent : List Write} (h : b.Aligned)
    (fares : ∀ p, Fares b b' recent p) : b'.Aligned := by
  intro p
  cases fares p with
  | kept before after saved =>
      rw [after, OrderedMap.contains, saved]
      exact (h p).trans before
  | styled before after w first saved =>
      rw [after, OrderedMap.contains, saved]
      rfl
  | returned before after unsaved => rw [after, unsaved]
  | unstyled before after unsaved => rw [after, unsaved]

private theorem Fares.trans {b b' b'' : Binding} {recent recent' : List Write} {p : String}
    (first : Fares b b' recent p) (second : Fares b' b'' recent' p)
    (once : b'.written.contains p = b.written.contains p ∨
      b''.written.contains p = b'.written.contains p) :
    Fares b b'' (recent ++ recent') p := by
  cases first with
  | kept before middle saved =>
      cases second with
      | kept _ after saved' => exact .kept before after (saved'.trans saved)
      | returned _ after unsaved w member key value =>
          exact .returned before after unsaved w (List.mem_append_right _ member) key
            (saved ▸ value)
      | styled middle' => cases middle.symm.trans middle'
      | unstyled middle' => cases middle.symm.trans middle'
  | styled before middle w first saved =>
      have here : (recent ++ recent').find? (·.key == p) = some w := by
        rw [List.find?_append, first, Option.some_or]
      cases second with
      | kept _ after saved' => exact .styled before after w here (saved'.trans saved)
      | returned _ after =>
          rw [before, middle, after] at once
          rcases once with once | once <;> cases once
      | styled middle' => cases middle.symm.trans middle'
      | unstyled middle' => cases middle.symm.trans middle'
  | returned before middle unsaved w member key value =>
      cases second with
      | kept middle' => cases middle.symm.trans middle'
      | returned middle' => cases middle.symm.trans middle'
      | styled _ after =>
          rw [before, middle, after] at once
          rcases once with once | once <;> cases once
      | unstyled _ after unsaved' =>
          exact .returned before after unsaved' w (List.mem_append_left _ member) key value
  | unstyled before middle unsaved untouched =>
      have rest : (recent ++ recent').find? (·.key == p) = recent'.find? (·.key == p) := by
        rw [List.find?_append, untouched, Option.none_or]
      cases second with
      | kept middle' => cases middle.symm.trans middle'
      | returned middle' => cases middle.symm.trans middle'
      | styled _ after w first saved => exact .styled before after w (rest.trans first) saved
      | unstyled _ after unsaved' untouched' =>
          exact .unstyled before after unsaved' (rest.trans untouched')

section

variable {V : Type}

def Leads (state state' : Binding × Recorded V) : Prop :=
  ∃ recent, state'.2.log = state.2.log ++ recent ∧ ∀ p, Fares state.1 state'.1 recent p

theorem Aligned.of_leads {state state' : Binding × Recorded V} (h : state.1.Aligned)
    (leads : Leads state state') : state'.1.Aligned :=
  let ⟨_, _, fares⟩ := leads
  h.after fares

private theorem Aligned.leads_of_eq {state state' : Binding × Recorded V} (h : state.1.Aligned)
    (written : state'.1.written = state.1.written) (saved : state'.1.saved = state.1.saved)
    (log : state'.2.log = state.2.log) : Leads state state' :=
  ⟨[], log.trans (List.append_nil _).symm, h.fares_of_eq written saved⟩

private theorem Leads.trans {state state' state'' : Binding × Recorded V}
    (first : Leads state state')
    (second : Leads state' state'')
    (once : ∀ p, state'.1.written.contains p = state.1.written.contains p ∨
      state''.1.written.contains p = state'.1.written.contains p) :
    Leads state state'' := by
  obtain ⟨recent, log, fares⟩ := first
  obtain ⟨recent', log', fares'⟩ := second
  exact ⟨recent ++ recent', by rw [log', log, List.append_assoc],
    fun p => (fares p).trans (fares' p) (once p)⟩

end

section

variable {V : Type} [Widget V]

private theorem contains_written_foldl_giveBack {W : Type} [Widget W] (keys : List String)
    (state : Binding × W) {p : String} (h : state.1.written.contains p = false) :
    (keys.foldl giveBack state).1.written.contains p = false := by
  rw [OrderedMap.contains, written_foldl_giveBack]
  split
  · rfl
  · exact h

private theorem contains_written_foldl_set {W : Type} [Widget W]
    (updates : List (String × Resolved)) (state : Binding × W) {p : String}
    (h : state.1.written.contains p = true) :
    (updates.foldl set state).1.written.contains p = true := by
  induction updates generalizing state with
  | nil => exact h
  | cons update updates ih =>
      refine ih (set state update) ?_
      rw [OrderedMap.contains, written_set]
      split
      · rfl
      · exact h

private theorem leads_giveBack {state : Binding × Recorded V} (h : state.1.Aligned) (key : String) :
    Leads state (giveBack state key) := by
  by_cases written : state.1.written.contains key = true
  · refine ⟨[⟨key, Widget.propertyValue state.2 key, (state.1.saved.find? key).join⟩], ?_,
      fun p => ?_⟩
    · simp only [giveBack, written, if_true]
      rfl
    · by_cases same : p = key
      · subst same
        refine .returned written ?_ ?_ _ List.mem_cons_self rfl rfl
        · rw [OrderedMap.contains, written_giveBack, if_pos rfl]
          rfl
        · simp only [giveBack, written, if_true]
          rw [OrderedMap.contains, OrderedMap.find?_erase, if_pos rfl]
          rfl
      · have kept : (giveBack state key).1.written.contains p = state.1.written.contains p := by
          rw [OrderedMap.contains, written_giveBack, if_neg same, OrderedMap.contains]
        have saved := saved_giveBack state same
        cases here : state.1.written.contains p with
        | true => exact .kept here (kept.trans here) saved
        | false =>
            refine .unstyled here (kept.trans here) ?_ ?_
            · rw [OrderedMap.contains, saved]
              exact (h p).trans here
            · rw [List.find?_singleton, if_neg (by simpa using Ne.symm same)]
  · have unchanged : giveBack state key = state := by
      obtain ⟨b, r⟩ := state
      simp only [giveBack, written, Bool.false_eq_true, if_false]
    rw [unchanged]
    exact h.leads_of_eq rfl rfl rfl

private theorem leads_set {state : Binding × Recorded V} (h : state.1.Aligned)
    (update : String × Resolved) : Leads state (set state update) := by
  obtain ⟨key, value⟩ := update
  refine ⟨[⟨key, Widget.propertyValue state.2 key, some value⟩], rfl, fun p => ?_⟩
  have written := written_set state (key, value) p
  by_cases same : p = key
  · subst same
    have after : (set state (p, value)).1.written.contains p = true := by
      rw [OrderedMap.contains, written, if_pos rfl]
      rfl
    cases here : state.1.written.contains p with
    | true =>
        refine .kept here after ?_
        simp only [set, (h p).trans here, if_true]
    | false =>
        refine .styled here after ⟨p, Widget.propertyValue state.2 p, some value⟩ (by simp) ?_
        simp only [set, (h p).trans here, Bool.false_eq_true, if_false]
        rw [OrderedMap.find?_insert, if_pos rfl]
  · have kept : (set state (key, value)).1.written.contains p = state.1.written.contains p := by
      rw [OrderedMap.contains, written, if_neg same, OrderedMap.contains]
    have saved : (set state (key, value)).1.saved.find? p = state.1.saved.find? p := by
      simp only [set]
      split
      · rfl
      · rw [OrderedMap.find?_insert, if_neg same]
    cases here : state.1.written.contains p with
    | true => exact .kept here (kept.trans here) saved
    | false =>
        refine .unstyled here (kept.trans here) ?_ ?_
        · rw [OrderedMap.contains, saved]
          exact (h p).trans here
        · rw [List.find?_singleton, if_neg (by simpa using Ne.symm same)]

private theorem leads_foldl_giveBack (keys : List String) {state : Binding × Recorded V}
    (h : state.1.Aligned) : Leads state (keys.foldl giveBack state) := by
  induction keys generalizing state with
  | nil => exact h.leads_of_eq rfl rfl rfl
  | cons key keys ih =>
      have first := leads_giveBack h key
      refine first.trans (ih (h.of_leads first)) fun p => ?_
      cases here : (giveBack state key).1.written.contains p with
      | false => exact .inr (contains_written_foldl_giveBack keys _ here)
      | true =>
          cases before : state.1.written.contains p with
          | true => exact .inl rfl
          | false =>
              exact Bool.noConfusion
                (here.symm.trans (contains_written_foldl_giveBack [key] state before))

private theorem leads_foldl_set (updates : List (String × Resolved)) {state : Binding × Recorded V}
    (h : state.1.Aligned) : Leads state (updates.foldl set state) := by
  induction updates generalizing state with
  | nil => exact h.leads_of_eq rfl rfl rfl
  | cons update updates ih =>
      have first := leads_set h update
      refine first.trans (ih (h.of_leads first)) fun p => ?_
      cases here : (set state update).1.written.contains p with
      | true => exact .inr (contains_written_foldl_set updates _ here)
      | false =>
          cases before : state.1.written.contains p with
          | false => exact .inl rfl
          | true =>
              exact Bool.noConfusion
                (here.symm.trans (contains_written_foldl_set [update] state before))

theorem leads_write {b : Binding} (h : b.Aligned) (r : Recorded V) (rule : Rule) :
    Leads (b, r) (b.write r rule) := by
  unfold write
  have cleared : Leads (b, r) ((b.withdrawals (Element.ofView r) rule).foldl giveBack (b, r)) :=
    leads_foldl_giveBack _ h
  refine cleared.trans (leads_foldl_set _ (Aligned.of_leads h cleared)) fun p => ?_
  -- What is given back is unfit, and then it is not set.
  by_cases member : p ∈ b.withdrawals (Element.ofView r) rule
  · have unfit : b.Unfit (Element.ofView r) rule p :=
      change?_eq_withdraw.1 (mem_withdrawals.1 member)
    have middle : ((b.withdrawals (Element.ofView r) rule).foldl giveBack
        (b, r)).1.written.contains p = false := by
      rw [OrderedMap.contains, written_foldl_giveBack, if_pos member]
      rfl
    have after : (b.write r rule).1.written.contains p = false :=
      Bool.eq_false_iff.2 fun kept => (contains_written_write.1 kept).1 unfit
    exact .inr (after.trans middle.symm)
  · refine .inl ?_
    rw [OrderedMap.contains, written_foldl_giveBack, if_neg member, OrderedMap.contains]

theorem leads_apply {b : Binding} (h : b.Aligned) (normal : b.NormalKeys) (r : Recorded V)
    (onlyImportant : Bool) :
    Leads (b, r) ((b.apply r onlyImportant).1, (b.apply r onlyImportant).2.1) := by
  cases onlyImportant with
  | true => exact leads_write h r b.computed.important
  | false =>
      rw [apply_false_eq]
      have written := leads_write h r b.computed.all
      refine written.trans (leads_foldl_giveBack _ (Aligned.of_leads h written)) fun p => ?_
      -- What is set is styled, and then it is not given back.
      by_cases listed : b.computed.all.values.find? p = none
      · refine .inl ?_
        have unchanged : b.change? (Element.ofView r) b.computed.all p = none := by
          rw [change?, listed]
          rfl
        rw [OrderedMap.contains, written_write, unchanged, OrderedMap.contains]
      · refine .inr ?_
        rw [← apply_false_eq, OrderedMap.contains, written_apply_false normal, if_neg listed,
          OrderedMap.contains]

theorem contains_written_apply {b : Binding} (normal : b.NormalKeys) (view : V) (p : String) :
    (b.apply view false).1.written.contains p = true ↔
      b.computed.all.values.contains p = true ∧
        (Widget.hasProperty view p = true →
          ∃ r, b.Fit (Element.ofView view) b.computed.all p r) ∧
        (Widget.hasProperty view p = false → b.written.contains p = true) := by
  have applied : (b.apply view false).1.written.contains p =
      (b.computed.all.values.contains p &&
        (b.write view b.computed.all).1.written.contains p) := by
    unfold OrderedMap.contains
    rw [written_apply_false normal]
    cases b.computed.all.values.find? p <;> rfl
  rw [applied, Bool.and_eq_true, contains_written_write]
  refine and_congr_right fun listed => ?_
  obtain ⟨value, found⟩ := Option.isSome_iff_exists.1 listed
  cases has : Widget.hasProperty view p with
  | true =>
      have fit_or : b.Unfit (Element.ofView view) b.computed.all p ∨
          ∃ r, b.Fit (Element.ofView view) b.computed.all p r := by
        obtain ⟨-, unfit⟩ | ⟨r, fit, -⟩ | ⟨absent, -⟩ :=
          b.change?_cases (Element.ofView view) b.computed.all p
        · exact .inl unfit
        · exact .inr ⟨r, fit⟩
        · rw [found] at absent
          rcases absent with absent | absent
          · cases absent
          · exact Bool.noConfusion (has.symm.trans absent)
      constructor
      · rintro ⟨ok, -⟩
        exact ⟨fun _ => fit_or.resolve_left ok, nofun⟩
      · rintro ⟨fit, -⟩
        obtain ⟨r, fit⟩ := fit rfl
        exact ⟨fun unfit => unfit.not_fit fit, .inr ⟨r, fit⟩⟩
  | false =>
      have lacks : ¬(Element.ofView view).hasProperty p = true := by
        simp [Element.ofView, has]
      constructor
      · rintro ⟨-, written | ⟨r, -, -, had, -⟩⟩
        · exact ⟨nofun, fun _ => written⟩
        · exact absurd had lacks
      · rintro ⟨-, written⟩
        exact ⟨fun ⟨_, _, had, _⟩ => lacks had, .inl (written rfl)⟩

end

end Binding

namespace Session

variable {κ V : Type} [Widget V]

def prepared (s : Session κ V) : Action κ → Binding
  | .ask _ => s.binding
  | .replaceFiles _ => s.binding
  | .setTrait traitTag => { s.binding with traitTag }.recomputed s.theme s.view
  | .setEnvironment environment => { s.binding with environment }.recomputed s.theme s.view
  | .refresh => s.binding.recomputed s.theme s.view
  | .apply _ => s.binding

def application? (s : Session κ V) : Action κ → Option Bool
  | .ask _ => none
  | .replaceFiles _ => none
  | .apply onlyImportant => some onlyImportant
  | _ => if s.binding.automatic then some false else none

private theorem step_eq (s : Session κ V) (action : Action κ) :
    ((s.step action).binding, (s.step action).view) =
      match s.application? action with
      | none => (s.prepared action, s.view)
      | some onlyImportant =>
          (((s.prepared action).apply s.view onlyImportant).1,
            ((s.prepared action).apply s.view onlyImportant).2.1) := by
  cases action with
  | ask request => rfl
  | replaceFiles loader => rfl
  | apply onlyImportant => rfl
  | setTrait traitTag =>
      simp only [step, withStyled, Binding.setTrait, Binding.restyle_eq, application?, prepared]
      split <;> rfl
  | setEnvironment environment =>
      simp only [step, withStyled, Binding.setEnvironment, Binding.restyle_eq, application?,
        prepared]
      split <;> rfl
  | refresh =>
      simp only [step, withStyled, Binding.restyle_eq, application?, prepared]
      split <;> rfl

omit [Widget V] in
private theorem appliesAll_iff {s : Session κ V} {action : Action κ} :
    s.AppliesAll action ↔ s.application? action = some false := by
  cases action <;> simp [AppliesAll, application?]

private theorem written_prepared (s : Session κ V) (action : Action κ) :
    (s.prepared action).written = s.binding.written := by
  cases action <;> rfl

private theorem saved_prepared (s : Session κ V) (action : Action κ) :
    (s.prepared action).saved = s.binding.saved := by
  cases action <;> rfl

/-- What can happen to a session and its view: an action, or the view turns into another one. -/
inductive Event (κ V : Type)
  | act (action : Action κ)
  | become (view : V)

def live (s : Session κ (Recorded V)) : Event κ V → Session κ (Recorded V)
  | .act action => s.step action
  | .become view => { s with view := { s.view with view } }

def lives (s : Session κ (Recorded V)) (events : List (Event κ V)) : Session κ (Recorded V) :=
  events.foldl live s

private theorem lives_append_singleton (s : Session κ (Recorded V)) (events : List (Event κ V))
    (event : Event κ V) : s.lives (events ++ [event]) = (s.lives events).live event := by
  rw [lives, List.foldl_append]
  rfl

structure Steady (s : Session κ (Recorded V)) : Prop where
  aligned : s.binding.Aligned
  normal : s.binding.NormalKeys
  rules : s.theme.sheet.rules.Normal

omit [Widget V] in
private theorem steady_start (config : Config) (loader : Loader) (automatic : Bool)
    (environment : Environment) (r : Recorded V) :
    Steady (start config loader automatic environment r : Session κ (Recorded V)) where
  aligned _ := rfl
  normal := by refine ⟨?_, ?_, ?_⟩ <;> nofun
  rules := Rules.closed_normal.empty

variable {s : Session κ (Recorded V)}

private theorem Steady.aligned_prepared (h : s.Steady) (action : Action κ) :
    (s.prepared action).Aligned := by
  unfold Binding.Aligned
  rw [written_prepared, saved_prepared]
  exact h.aligned

private theorem Steady.normal_prepared (h : s.Steady) (action : Action κ) :
    (s.prepared action).NormalKeys := by
  have settings (traitTag : Option String) (environment : Environment) :
      { s.binding with traitTag, environment }.NormalKeys :=
    ⟨h.normal.all, h.normal.important, h.normal.written⟩
  cases action with
  | ask request => exact h.normal
  | replaceFiles loader => exact h.normal
  | apply onlyImportant => exact h.normal
  | setTrait traitTag => exact (settings traitTag _).recomputed h.rules s.view
  | setEnvironment environment => exact (settings _ environment).recomputed h.rules s.view
  | refresh => exact h.normal.recomputed h.rules s.view

private theorem Steady.step (h : s.Steady) (action : Action κ) :
    Binding.Leads (s.binding, s.view) ((s.step action).binding, (s.step action).view) ∧
      (s.step action).binding.NormalKeys := by
  have prepared : Binding.Leads (s.binding, s.view) (s.prepared action, s.view) :=
    h.aligned.leads_of_eq (s.written_prepared action) (s.saved_prepared action) rfl
  have normal := h.normal_prepared action
  suffices all : ∀ state, state = ((s.step action).binding, (s.step action).view) →
      Binding.Leads (s.binding, s.view) state ∧ state.1.NormalKeys from all _ rfl
  rintro state rfl
  rw [step_eq]
  cases s.application? action with
  | none => exact ⟨prepared, normal⟩
  | some onlyImportant =>
      have applied := Binding.leads_apply (h.aligned_prepared action) normal s.view onlyImportant
      refine ⟨prepared.trans applied fun p => .inl ?_, normal.apply s.view onlyImportant⟩
      rw [written_prepared]

private theorem Steady.leads_live (h : s.Steady) (event : Event κ V) :
    Binding.Leads (s.binding, s.view) ((s.live event).binding, (s.live event).view) := by
  cases event with
  | act action => exact (h.step action).1
  | become view => exact h.aligned.leads_of_eq rfl rfl rfl

private theorem Steady.live (h : s.Steady) (event : Event κ V) : (s.live event).Steady where
  aligned := Binding.Aligned.of_leads h.aligned (h.leads_live event)
  normal := by
    cases event with
    | act action => exact (h.step action).2
    | become view => exact h.normal
  rules := by
    cases event with
    | become view => exact h.rules
    | act action =>
        cases action with
        | ask request => exact Theme.normal_perform h.rules request
        | _ => exact h.rules

private theorem Steady.contains_written_step (h : s.Steady) {last : Action κ}
    (full : s.AppliesAll last) (p : String) :
    let after := (s.step last).binding
    let element := Element.ofView s.view
    after.written.contains p = true ↔
      after.computed.all.values.contains p = true ∧
        (element.hasProperty p = true → ∃ r, after.Fit element after.computed.all p r) ∧
        (element.hasProperty p = false → s.binding.written.contains p = true) := by
  intro after element
  have eq := s.step_eq last
  rw [appliesAll_iff.1 full] at eq
  have binding : after = ((s.prepared last).apply s.view false).1 := congrArg Prod.fst eq
  have same := Binding.sameStyle_apply (s.prepared last) s.view false
  rw [← binding] at same
  have applied := Binding.contains_written_apply (h.normal_prepared last) s.view p
  rw [← binding, written_prepared, ← same.computed_eq] at applied
  simp only [Binding.Fit, Binding.surroundings, same.environment_eq]
  exact applied

/-- Of a property that is written after some events: `found` is what the view read there when the
property was set for the first time since it was last not written. -/
inductive Since (base : Session κ (Recorded V)) (events : List (Event κ V)) (p : String)
    (found : Option Resolved) : Prop
  | intro (before : List (Event κ V)) (event : Event κ V) (later : List (Event κ V))
      (split : events = before ++ event :: later)
      (unwritten : (base.lives before).binding.written.contains p = false)
      (written : ∀ more, more <+: later →
        (base.lives (before ++ event :: more)).binding.written.contains p = true)
      (recent : List Write) (w : Write)
      (log : (base.lives (before ++ [event])).view.log = (base.lives before).view.log ++ recent)
      (first : recent.find? (·.key == p) = some w) (found_eq : w.found = found)

variable {base : Session κ (Recorded V)} {events : List (Event κ V)} {p : String}

private theorem prefix_of_unwritten {before before' later later' : List (Event κ V)}
    {event event' : Event κ V} (split : before ++ event :: later = before' ++ event' :: later')
    (written : ∀ more, more <+: later →
      (base.lives (before ++ event :: more)).binding.written.contains p = true)
    (unwritten : (base.lives before').binding.written.contains p = false) :
    before' <+: before := by
  obtain ⟨more, rfl, rest⟩ | ⟨more, rfl, -⟩ := List.append_eq_append_iff.1 split
  · cases more with
    | nil =>
        rewrite [List.append_nil]
        exact List.prefix_rfl
    | cons first more =>
        obtain ⟨rfl, rfl⟩ := List.cons.inj rest
        exact Bool.noConfusion
          (unwritten.symm.trans (written more (List.prefix_append more _)))
  · exact List.prefix_append before' more

theorem Since.unique {found found' : Option Resolved} (h : Since base events p found)
    (h' : Since base events p found') : found = found' := by
  obtain ⟨before, event, later, rfl, unwritten, written, recent, w, log, first, rfl⟩ := h
  obtain ⟨before', event', later', split, unwritten', written', recent', w', log', first', rfl⟩ :=
    h'
  have same : before' = before :=
    (prefix_of_unwritten split written unwritten').eq_of_length_le
      (prefix_of_unwritten split.symm written' unwritten).length_le
  subst same
  obtain ⟨rfl, rfl⟩ := List.cons.inj (List.append_cancel_left split)
  obtain rfl := List.append_cancel_left (log.symm.trans log')
  cases first.symm.trans first'
  rfl

private theorem Since.still {found : Option Resolved} (h : Since base events p found)
    {event : Event κ V}
    (written : (base.lives (events ++ [event])).binding.written.contains p = true) :
    Since base (events ++ [event]) p found := by
  obtain ⟨before, first_event, later, rfl, unwritten, still, recent, w, log, first, found_eq⟩ := h
  refine .intro before first_event (later ++ [event]) (by simp) unwritten (fun more le => ?_) recent
    w log first found_eq
  obtain rfl | le := List.prefix_concat_iff.1 le
  · simpa using written
  · exact still more le

/-- What is saved of a written property is what the view had before. -/
structure Remembers (base : Session κ (Recorded V)) (events : List (Event κ V)) : Prop where
  steady : (base.lives events).Steady
  since : ∀ p, (base.lives events).binding.written.contains p = true →
    ∃ found, Since base events p found ∧ (base.lives events).binding.saved.find? p = some found

private theorem Remembers.snoc (h : Remembers base events) (event : Event κ V) :
    Remembers base (events ++ [event]) := by
  have after := base.lives_append_singleton events event
  refine ⟨after ▸ h.steady.live event, fun p written => ?_⟩
  obtain ⟨recent, log, fares⟩ := h.steady.leads_live event
  rw [← after] at log fares
  cases fares p with
  | kept before _ saved =>
      obtain ⟨found, since, saved_before⟩ := h.since p before
      exact ⟨found, since.still written, saved.trans saved_before⟩
  | styled before _ w first saved =>
      refine ⟨w.found, .intro events event [] rfl before (fun more le => ?_) recent w log first rfl,
        saved⟩
      rw [List.prefix_nil.1 le]
      exact written
  | returned _ lost => exact Bool.noConfusion (lost.symm.trans written)
  | unstyled _ lost => exact Bool.noConfusion (lost.symm.trans written)

private theorem Remembers.returned (h : Remembers base events) (event : Event κ V) :
    ∃ recent, ((base.lives events).live event).view.log = (base.lives events).view.log ++ recent ∧
      ∀ p, (base.lives events).binding.written.contains p = true →
        ((base.lives events).live event).binding.written.contains p = false →
          ∃ w ∈ recent, w.key = p ∧ Since base events p w.value := by
  obtain ⟨recent, log, fares⟩ := h.steady.leads_live event
  refine ⟨recent, log, fun p before lost => ?_⟩
  obtain ⟨found, since, saved⟩ := h.since p before
  cases fares p with
  | kept _ kept => exact Bool.noConfusion (lost.symm.trans kept)
  | styled unwritten => exact Bool.noConfusion (unwritten.symm.trans before)
  | unstyled unwritten => exact Bool.noConfusion (unwritten.symm.trans before)
  | returned _ _ _ w member key value =>
      refine ⟨w, member, key, ?_⟩
      rw [value, saved]
      exact since

/-- Along every history the binding remembers. -/
theorem remembers_lives (steady : base.Steady)
    (fresh : ∀ p, base.binding.written.contains p = false) (events : List (Event κ V)) :
    Remembers base events := by
  induction events using List.reverseRecOn with
  | nil => exact ⟨steady, fun p written => Bool.noConfusion ((fresh p).symm.trans written)⟩
  | append_singleton events event ih => exact ih.snoc event

/-- After any history, an action that applies everything leaves written what is styled and has a fit
value; and what is styled, was written before and is missing from the view. All else that was
written is set to what the view had before. So only fit properties are written if and only if no
styled one that was written is missing from the view. -/
theorem written_or_givenBack (config : Config) (loader : Loader) (automatic : Bool)
    (environment : Environment) (view : V) (events : List (Event κ V)) (last : Action κ)
    (full : ((start config loader automatic environment (Recorded.mk view [])).lives
      events).AppliesAll last) :
    let first : Session κ (Recorded V) := start config loader automatic environment ⟨view, []⟩
    let before := first.lives events
    let after := before.step last
    let element := Element.ofView before.view
    let styles := after.binding.computed.all
    (∀ p, after.binding.written.contains p = true ↔
      styles.values.contains p = true ∧
        (element.hasProperty p = true → ∃ r, after.binding.Fit element styles p r) ∧
        (element.hasProperty p = false → before.binding.written.contains p = true)) ∧
      (∃ recent, after.view.log = before.view.log ++ recent ∧
        ∀ p, before.binding.written.contains p = true →
          after.binding.written.contains p = false →
            ∃ w ∈ recent, w.key = p ∧ Since first events p w.value) ∧
      ((∀ p, after.binding.written.contains p = true →
          ∃ r, after.binding.Fit element styles p r) ↔
        ∀ p, before.binding.written.contains p = true → styles.values.contains p = true →
          element.hasProperty p = true) := by
  intro first before after element styles
  have remembers : Remembers first events :=
    remembers_lives (steady_start config loader automatic environment _) (fun _ => rfl) events
  have written := remembers.steady.contains_written_step full
  refine ⟨written, remembers.returned (.act last), fun fit p before_p styled => ?_,
    fun had p after_p => ?_⟩
  · cases has : element.hasProperty p with
    | true => rfl
    | false =>
        have kept : after.binding.written.contains p = true :=
          (written p).2 ⟨styled, fun had => Bool.noConfusion (has.symm.trans had), fun _ => before_p⟩
        obtain ⟨r, value, -, had, -⟩ := fit p kept
        exact has.symm.trans had
  · obtain ⟨styled, fit, missing⟩ := (written p).1 after_p
    cases has : element.hasProperty p with
    | true => exact fit has
    | false => exact Bool.noConfusion (has.symm.trans (had p (missing has) styled))

set_option maxRecDepth 20000 in
/-- A text that is no longer styled is given back. -/
theorem written_or_givenBack_unstyled :
    let label : PropertyList :=
      ⟨"A", (∅ : OrderedMap _).insert "text" (some (.literal (.text "plain")))⟩
    let first : Session Unit (Recorded PropertyList) :=
      start {} Bundles.empty.load false {} ⟨label, []⟩
    let events : List (Event Unit PropertyList) :=
      [.act (.ask (.load ".A \x7b text: styled; \x7d")), .act .refresh, .act (.apply false),
        .act (.ask (.load "")), .act .refresh]
    let before := first.lives events
    let after := before.step (.apply false)
    before.AppliesAll (.apply false) ∧ before.binding.written.contains "text" = true ∧
      after.binding.written.contains "text" = false ∧
        ∃ recent, after.view.log = before.view.log ++ recent ∧
          ∃ w ∈ recent, w.key = "text" ∧ Since first events "text" w.value := by
  intro label first events before after
  have plain : Token.isPlain ".A \x7b text: styled; \x7d" = true := by decide +kernel
  have plain' : Token.isPlain "" = true := by decide +kernel
  have changes : before.binding.written.contains "text" = true ∧
      after.binding.written.contains "text" = false := by
    simp only [after, before, events, lives, live, List.foldl_cons, List.foldl_nil,
      step_load _ plain, step_load _ plain']
    decide +kernel
  obtain ⟨written, lost⟩ := changes
  obtain ⟨recent, log, returned⟩ :=
    (written_or_givenBack {} Bundles.empty.load false {} label events (.apply false) rfl).2.1
  refine ⟨rfl, written, lost, ?_⟩
  unfold after before first at written lost ⊢
  exact ⟨recent, log, returned "text" written lost⟩

set_option maxRecDepth 20000 in
/-- A text that is styled when its view loses it: it stays written, and nothing is given back. -/
theorem not_givenBack_missing :
    let label : PropertyList :=
      ⟨"A", (∅ : OrderedMap _).insert "text" (some (.literal (.text "plain")))⟩
    let first : Session Unit (Recorded PropertyList) :=
      start {} Bundles.empty.load false {} ⟨label, []⟩
    let before := first.lives
      [.act (.ask (.load ".A \x7b text: styled; \x7d")), .act .refresh, .act (.apply false),
        .become ⟨"A", ∅⟩]
    let after := before.step (.apply false)
    before.AppliesAll (.apply false) ∧ before.binding.written.contains "text" = true ∧
      Widget.hasProperty before.view "text" = false ∧
        after.binding.written.contains "text" = true ∧
          before.view.log.map (·.key) = ["text"] ∧ after.view.log.map (·.key) = ["text"] := by
  intro label first before after
  have plain : Token.isPlain ".A \x7b text: styled; \x7d" = true := by decide +kernel
  refine ⟨rfl, ?_⟩
  simp only [after, before, lives, live, List.foldl_cons, List.foldl_nil, step_load _ plain]
  decide +kernel

end Session

end ViewStyle
