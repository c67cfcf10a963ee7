/-
The layout constraints of a styled view. If there are no plugins but the one of layout constraints,
then all values of a style that are no literals were read by it; such values can always be computed,
and whatever they give names only views that are there.
-/

import ViewStyle.Proofs.Binding.Session
import ViewStyle.Proofs.Layout.VisualFormat

set_option autoImplicit false

namespace ViewStyle

namespace Layout

def Anchor.subview? (a : Anchor) : Option String :=
  match a.item with
  | .itself => none
  | .subview key => some key

def Equation.subviews (e : Equation) : List String :=
  (e.first :: e.second.toList).filterMap Anchor.subview?

/-- The subviews that a constraint names. -/
def Constraint.subviews : Constraint → List String
  | .equation e => e.subviews
  | .visual _ views => (views.filter (· != selfKey)).map subviewOfKey

/-- What a template gives for a view with some properties and subviews: an equation gives itself, or
nothing if a subview is missing, and a visual format the view and those of its references that are
there. -/
inductive Template.Gives (has : String → Bool) : Template → List Constraint → Prop
  | equation {e : Equation} : (∀ key ∈ e.subviews, has key = true) →
      Gives has (.equation e) [.equation e]
  | missing {e : Equation} {key : String} : key ∈ e.subviews → has key = false →
      Gives has (.equation e) []
  | visual {format : String} {keys views : List String} : (selfKey :: views).Nodup →
      (∀ key, key ∈ views ↔
        key ∈ references format.toList ∧ key ≠ selfKey ∧ has (subviewOfKey key) = true) →
      Gives has (.visual format keys) [.visual format (selfKey :: views)]

variable {has : String → Bool}

private theorem Item.available_iff (a : Anchor) :
    a.item.available has = true ↔ ∀ key ∈ a.subview?, has key = true := by
  unfold Anchor.subview?
  cases a.item with
  | itself => exact iff_of_true rfl nofun
  | subview key => simp [Item.available]

private theorem Equation.available_iff (e : Equation) :
    (e.first.item.available has && e.second.all (·.item.available has)) = true ↔
      ∀ key ∈ e.subviews, has key = true := by
  have listed : (∀ key ∈ e.subviews, has key = true) ↔
      ∀ a ∈ e.first :: e.second.toList, ∀ key ∈ a.subview?, has key = true := by
    simp only [subviews, List.mem_filterMap, Option.mem_def]
    constructor
    · intro h a member key subview
      exact h key ⟨a, member, subview⟩
    · rintro h key ⟨a, member, subview⟩
      exact h a member key subview
  rw [listed, List.forall_mem_cons, Bool.and_eq_true, Item.available_iff]
  refine and_congr_right fun _ => ?_
  cases e.second with
  | none => simp
  | some a => simpa using Item.available_iff a

private theorem keys_of_read {raw format : String} {keys : List String}
    (h : Template.read raw = .ok (.visual format keys)) : keys = viewKeys format.toList := by
  unfold Template.read at h
  split at h
  · unfold readVisual at h
    dsimp only at h
    split at h
    · cases h
      rw [String.toList_ofList]
    · cases h
  · rename_i text _ _
    cases read : readEquation text with
    | error fault =>
        rw [read] at h
        cases h
    | ok e =>
        rw [read] at h
        cases h
  · cases h

private theorem nodup_eraseDups {α : Type} [BEq α] [LawfulBEq α] : ∀ l : List α, l.eraseDups.Nodup
  | [] => List.nodup_nil
  | a :: l => by
      have smaller : (l.filter fun b => !b == a).length < l.length + 1 :=
        Nat.lt_succ_of_le (List.length_filter_le _ _)
      rw [List.eraseDups_cons, List.nodup_cons]
      exact ⟨by simp, nodup_eraseDups _⟩
termination_by l => l.length

private theorem nodup_viewKeys (format : List Char) : (viewKeys format).Nodup := by
  rw [viewKeys_eq]
  exact (nodup_eraseDups _).filter _

private theorem mem_viewKeys {format : List Char} {key : String} :
    key ∈ viewKeys format ↔ key ∈ references format ∧ key ≠ selfKey := by
  rw [viewKeys_eq, List.mem_filter, List.mem_eraseDups, bne_iff_ne]

private theorem gives_resolve {raw : String} {t : Template} (read : Template.read raw = .ok t) :
    t.Gives has (t.resolve has) := by
  cases t with
  | equation e =>
      unfold Template.resolve
      dsimp only
      split
      · rename_i available
        exact .equation (e.available_iff.1 available)
      · rename_i missing
        rw [e.available_iff] at missing
        push Not at missing
        obtain ⟨key, member, absent⟩ := missing
        exact .missing member (Bool.eq_false_iff.2 absent)
  | visual format keys =>
      have keys_eq := keys_of_read read
      subst keys_eq
      refine .visual ?_ fun key => ?_
      · rw [List.nodup_cons]
        refine ⟨fun member => ?_, (nodup_viewKeys _).filter _⟩
        exact (mem_viewKeys.1 (List.mem_filter.1 member).1).2 rfl
      · rw [List.mem_filter, mem_viewKeys, and_assoc]

private theorem Template.Gives.has_subview {t : Template} {list : List Constraint}
    (h : t.Gives has list) {c : Constraint} (member : c ∈ list) {key : String}
    (named : key ∈ c.subviews) : has key = true := by
  cases h with
  | equation all =>
      cases List.mem_singleton.1 member
      exact all key named
  | missing => cases member
  | visual _ views =>
      cases List.mem_singleton.1 member
      obtain ⟨view, kept, rfl⟩ := List.mem_map.1 named
      obtain ⟨listed, other⟩ := List.mem_filter.1 kept
      rcases List.mem_cons.1 listed with rfl | listed
      · simp at other
      · exact ((views view).1 listed).2.2

end Layout

def Value.IsLayout (v : Value) : Prop :=
  ∃ serial compute, Plugin.constraint.read v.raw serial = .ok compute ∧
    v.content = .plugin ⟨Plugin.constraint.name, compute⟩

private theorem Value.IsLayout.exists_template {v : Value} (h : v.IsLayout) :
    ∃ t, Layout.Template.read v.raw = .ok t ∧ ∀ environment element,
      v.compute ⟨environment, element⟩ = .ok (.constraints
        (element.elim [] fun element => t.resolve element.hasProperty)) := by
  obtain ⟨serial, compute, read, content⟩ := h
  unfold Plugin.constraint at read
  dsimp only at read
  split at read
  · cases read
  · rename_i t template
    cases read
    refine ⟨t, template, fun environment element => ?_⟩
    rw [Value.compute, content]
    cases element <;> rfl

def Stylesheet.OnlyLayouts (s : Stylesheet) : Prop :=
  ∀ v, s.Holds v → v.isPlugin = true → v.IsLayout

/-- The same for the style that a binding has computed. -/
def Binding.OnlyLayouts (b : Binding) : Prop :=
  ∀ key v, b.computed.all.values.find? key = some v → v.isPlugin = true → v.IsLayout

private theorem Draft.Evaluated.isLayout {tokens : List Token} {v : Value}
    (h : Evaluated .builtins tokens v) (plugin : v.isPlugin = true) : v.IsLayout := by
  obtain ⟨s, s', important, evaluated⟩ := h
  unfold Builder.State.value at evaluated
  dsimp only at evaluated
  split at evaluated
  · cases evaluated
    cases plugin
  · rename_i claimant claims
    have only : claimant = .constraint := List.mem_singleton.1 (List.mem_of_find?_eq_some claims)
    subst only
    split at evaluated
    · cases evaluated
    · rename_i compute read
      cases evaluated
      exact ⟨s.serial, compute, read, rfl⟩

private theorem Builder.onlyLayouts_of_build {serial : Nat} {tokens : List Token}
    {s : Builder.State} (accepted : Builder.build .builtins serial tokens = .ok s) :
    s.sheet.OnlyLayouts := by
  intro v holds plugin
  obtain ⟨blocks, written⟩ := exists_written_of_build accepted
  obtain ⟨_, _, _, _, _, -, -, -, evaluated⟩ := exists_evaluated_of_build accepted written holds
  exact evaluated.isLayout plugin

private theorem Stylesheet.holds_of_find?_compute {s : Stylesheet} {c : Context} {key : String}
    {v : Value} (h : (s.compute c).all.values.find? key = some v) : s.Holds v := by
  obtain ⟨rules, globals⟩ := s
  rw [Cascade.compute_all] at h
  obtain ⟨x, found, rfl⟩ := Option.map_eq_some_iff.1 h
  have member := (List.mem_filter.1 (List.mem_of_getLast? found)).1
  obtain ⟨e, listed, -, declared, -⟩ := Cascade.mem_candidates.1 (Cascade.mem_ranked.1 member)
  exact .inl ⟨e, listed, _, OrderedMap.mem_entries.2 declared, rfl⟩

namespace Session

variable {κ V : Type} [Widget V]

structure OnlyLayouts (s : Session κ V) : Prop where
  registry : s.theme.registry = .builtins
  sheet : s.theme.sheet.OnlyLayouts
  binding : s.binding.OnlyLayouts

private theorem onlyLayouts_adopt {t : Theme κ} {reader : Reader}
    (builtin : reader.registry = .builtins) (result : Except SheetError (List Token)) :
    (t.adopt (result.bind reader.build)).sheet.OnlyLayouts := by
  have nothing : (∅ : Stylesheet).OnlyLayouts := by
    rintro v (⟨e, none, -⟩ | ⟨d, none, -⟩) <;> cases none
  cases result with
  | error e => exact nothing
  | ok tokens =>
      show (t.adopt (reader.build tokens)).sheet.OnlyLayouts
      unfold Reader.build
      rw [builtin]
      cases built : Builder.build .builtins reader.serial tokens with
      | error e => exact nothing
      | ok s => exact Builder.onlyLayouts_of_build built

def RegistersNothing : Action κ → Prop
  | .ask (.register _) => False
  | _ => True

private theorem OnlyLayouts.perform {s : Session κ V} (h : s.OnlyLayouts) {request : Request κ}
    (keeps : RegistersNothing (.ask request)) : (s.step (.ask request)).OnlyLayouts := by
  have adopt (t : Theme κ) (reader : Reader) (result : Except SheetError (List Token))
      (same : t.registry = .builtins) (builtin : reader.registry = .builtins) :
      (t.adopt (result.bind reader.build)).registry = .builtins ∧
        (t.adopt (result.bind reader.build)).sheet.OnlyLayouts := by
    refine ⟨?_, onlyLayouts_adopt builtin result⟩
    cases result.bind reader.build <;> exact same
  cases request with
  | load text =>
      obtain ⟨registry, sheet⟩ := adopt s.theme (s.theme.reader s.theme.config.location)
        (Import.ofText (s.theme.reader s.theme.config.location).source
          s.theme.config.entryPoint.extension text) h.registry h.registry
      exact ⟨registry, sheet, h.binding⟩
  | loadFile file place =>
      obtain ⟨registry, sheet⟩ := adopt { s.theme with file, place } (s.theme.reader place)
        (Import.ofFile (s.theme.reader place).source file) h.registry h.registry
      exact ⟨registry, sheet, h.binding⟩
  | reload =>
      obtain ⟨registry, sheet⟩ := adopt s.theme (s.theme.reader s.theme.place)
        (Import.ofFile (s.theme.reader s.theme.place).source s.theme.file) h.registry h.registry
      exact ⟨registry, sheet, h.binding⟩
  | register plugin => exact keeps.elim
  | subscribe callback => exact ⟨h.registry, h.sheet, h.binding⟩
  | unsubscribe id => exact ⟨h.registry, h.sheet, h.binding⟩

private theorem OnlyLayouts.restyle {s : Session κ V} (h : s.OnlyLayouts) (b : Binding) :
    (s.withStyled (b.restyle s.theme s.view)).OnlyLayouts := by
  have computed : (b.recomputed s.theme s.view).OnlyLayouts := fun key v found =>
    h.sheet v (Stylesheet.holds_of_find?_compute found)
  refine ⟨h.registry, h.sheet, ?_⟩
  rw [Binding.restyle_eq]
  split
  · intro key v found
    refine computed key v ?_
    rwa [← (Binding.sameStyle_apply (b.recomputed s.theme s.view) s.view false).computed_eq]
  · exact computed

private theorem OnlyLayouts.step {s : Session κ V} (h : s.OnlyLayouts) {action : Action κ}
    (keeps : RegistersNothing action) : (s.step action).OnlyLayouts := by
  cases action with
  | ask request => exact h.perform keeps
  | replaceFiles loader => exact ⟨h.registry, h.sheet, h.binding⟩
  | setTrait traitTag => exact h.restyle _
  | setEnvironment environment => exact h.restyle _
  | refresh => exact h.restyle _
  | apply onlyImportant =>
      refine ⟨h.registry, h.sheet, fun key v found => h.binding key v ?_⟩
      rwa [← (Binding.sameStyle_apply s.binding s.view onlyImportant).computed_eq]

/-- Whatever happens, there are no values of other plugins as long as none is registered. -/
theorem onlyLayouts_run {config : Config} (builtin : config.builtinPlugins = true)
    (loader : Loader) (automatic : Bool) (environment : Environment) (view : V)
    {actions : List (Action κ)} (keeps : ∀ action ∈ actions, RegistersNothing action) :
    ((start config loader automatic environment view).run actions).OnlyLayouts := by
  have fresh : (start config loader automatic environment view : Session κ V).OnlyLayouts := by
    refine ⟨if_pos builtin, ?_, nofun⟩
    rintro v (⟨e, none, -⟩ | ⟨d, none, -⟩) <;> cases none
  generalize start config loader automatic environment view = s at fresh ⊢
  induction actions generalizing s with
  | nil => exact fresh
  | cons action actions ih =>
      obtain ⟨here, there⟩ := List.forall_mem_cons.1 keeps
      exact ih there _ (fresh.step here)

end Session

namespace Binding

open Layout (Constraint Template)

private theorem constraints_eq_ok {b : Binding} {element : Element} {parts : List (List Constraint)}
    (each : List.Forall₂ (fun e part =>
      constraintsOf e.2 (b.surroundings (some element)) = .ok part)
        (b.computed.all.entries.filter (·.2.isPlugin)) parts) :
    b.constraints element = .ok parts.flatten := by
  rw [constraints]
  generalize b.computed.all.entries.filter (·.2.isPlugin) = listed at each ⊢
  have all : listed.mapM (fun e => constraintsOf e.2 (b.surroundings (some element))) =
      .ok parts := by
    induction each with
    | nil => rfl
    | cons here _ ih =>
        rw [List.mapM_cons, here, ok_bind, ih]
        rfl
  rw [all]
  rfl

/-- The values of a style that are no literals, in the order of their keys: all of them can be
computed, and each gives what its template gives for the view, which names no view that is missing.
Without a view they give nothing. -/
theorem constraints_of_layouts {b : Binding} (layouts : b.OnlyLayouts) :
    ∃ listed : List (String × Value),
      listed.Pairwise (fun e e' => e.1 < e'.1) ∧
      (∀ key v, (key, v) ∈ listed ↔
        b.computed.all.values.find? key = some v ∧ v.isPlugin = true) ∧
      (∀ element : Element, ∃ parts : List (List Constraint),
        b.constraints element = .ok parts.flatten ∧
        List.Forall₂ (fun e part => ∃ t, Template.read e.2.raw = .ok t ∧
          t.Gives element.hasProperty part) listed parts ∧
        ∀ c ∈ parts.flatten, ∀ key ∈ c.subviews, element.hasProperty key = true) ∧
      ∀ e ∈ listed, ∀ environment, e.2.compute ⟨environment, none⟩ = .ok (.constraints []) := by
  let listed := b.computed.all.entries.filter (·.2.isPlugin)
  have mem_listed (key : String) (v : Value) : (key, v) ∈ listed ↔
      b.computed.all.values.find? key = some v ∧ v.isPlugin = true :=
    List.mem_filter.trans (and_congr_left fun _ => OrderedMap.mem_entries)
  have templates : ∀ e ∈ listed, e.2.IsLayout := by
    rintro ⟨key, v⟩ member
    obtain ⟨found, plugin⟩ := (mem_listed key v).1 member
    exact layouts key v found plugin
  refine ⟨listed, b.computed.all.values.sorted.filter _, mem_listed, fun element => ?_, ?_⟩
  · have each : ∀ e ∈ listed, ∃ part,
        constraintsOf e.2 (b.surroundings (some element)) = .ok part ∧
          ∃ t, Template.read e.2.raw = .ok t ∧ t.Gives element.hasProperty part := by
      intro e member
      obtain ⟨t, read, computed⟩ := (templates e member).exists_template
      refine ⟨t.resolve element.hasProperty, ?_, t, read, Layout.gives_resolve read⟩
      rw [constraintsOf, surroundings, computed]
      rfl
    choose! part computed gives using each
    have pairs {R : String × Value → List Constraint → Prop} (all : ∀ e ∈ listed, R e (part e)) :
        List.Forall₂ R listed (listed.map part) :=
      List.forall₂_map_right_iff.2 (List.forall₂_same.2 all)
    refine ⟨listed.map part, constraints_eq_ok (pairs computed), pairs gives, ?_⟩
    intro c member key named
    obtain ⟨list, listed', member⟩ := List.mem_flatten.1 member
    obtain ⟨e, here, rfl⟩ := List.mem_map.1 listed'
    obtain ⟨t, -, given⟩ := gives e here
    exact given.has_subview member named
  · intro e member environment
    obtain ⟨t, -, computed⟩ := (templates e member).exists_template
    exact computed environment none

set_option maxRecDepth 20000 in
/-- A view that has one of the two subviews in a format. -/
theorem constraints_of_layouts_box :
    let box : PropertyList := ⟨"A", (∅ : OrderedMap _).insert "a" none⟩
    let s : Session Unit PropertyList := (Session.start {} Bundles.empty.load false {} box).run
      [.ask (.load ".A \x7b v: constraint-vfl(\"H:|-[_a]-[_b]-|\"); \x7d"), .refresh]
    let element := Element.ofView s.view
    s.binding.OnlyLayouts ∧ ∃ list : List Constraint,
      s.binding.constraints element = .ok list ∧ list.map Constraint.subviews = [["a"]] ∧
      ∀ c ∈ list, ∀ key ∈ c.subviews, element.hasProperty key = true := by
  intro box s element
  have layouts : s.binding.OnlyLayouts :=
    (Session.onlyLayouts_run rfl _ false {} box (by simp [Session.RegistersNothing])).binding
  obtain ⟨_, -, -, each, -⟩ := constraints_of_layouts layouts
  obtain ⟨parts, computed, -, present⟩ := each element
  refine ⟨layouts, parts.flatten, computed, ?_, present⟩
  have plain : Token.isPlain ".A \x7b v: constraint-vfl(\"H:|-[_a]-[_b]-|\"); \x7d" = true := by
    decide +kernel
  have named : (s.binding.constraints element).map (·.map Constraint.subviews) =
      .ok [["a"]] := by
    simp only [element, s, Session.run, List.foldl_cons, List.foldl_nil,
      Session.step_load _ plain]
    decide +kernel
  rw [computed] at named
  exact Except.ok.inj named

end Binding

end ViewStyle
