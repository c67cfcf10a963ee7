/-
A view, its binding and a theme over time. Stylesheets are loaded, the binding is told about traits
and environments, and applies all or only the important properties, in any order. Whatever has
happened before, the view shows its style after everything was applied.
-/

import ViewStyle.Proofs.Binding.Apply
import ViewStyle.Proofs.Stylesheet.Inlining
import ViewStyle.Theme.Notification

set_option autoImplicit false

namespace ViewStyle

structure Session (κ V : Type) where
  theme : Theme κ
  binding : Binding
  view : V

/-- What can happen to a session. -/
inductive Action (κ : Type)
  | ask (request : Request κ)
  | replaceFiles (loader : Loader)
  | setTrait (traitTag : Option String)
  | setEnvironment (environment : Environment)
  | refresh
  | apply (onlyImportant : Bool)

namespace Session

variable {κ V : Type} [Widget V]

/-- A fresh theme and a fresh binding. -/
def start (config : Config) (loader : Loader) (automatic : Bool) (environment : Environment)
    (view : V) : Session κ V :=
  ⟨Theme.ofConfig config loader, Binding.fresh automatic environment, view⟩

def withStyled (s : Session κ V) (styled : Binding × V) : Session κ V :=
  { s with binding := styled.1, view := styled.2 }

def step (s : Session κ V) : Action κ → Session κ V
  | .ask request => { s with theme := (s.theme.perform request).1 }
  | .replaceFiles loader => { s with theme := { s.theme with loader } }
  | .setTrait traitTag => s.withStyled (s.binding.setTrait s.theme s.view traitTag)
  | .setEnvironment environment =>
      s.withStyled (s.binding.setEnvironment s.theme s.view environment)
  | .refresh => s.withStyled (s.binding.restyle s.theme s.view)
  | .apply onlyImportant =>
      let (binding, view, _) := s.binding.apply s.view onlyImportant
      s.withStyled (binding, view)

def run (s : Session κ V) (actions : List (Action κ)) : Session κ V := actions.foldl step s

/-- The action ends with an application of all properties. -/
def AppliesAll (s : Session κ V) : Action κ → Prop
  | .ask _ => False
  | .replaceFiles _ => False
  | .setTrait _ => s.binding.automatic = true
  | .setEnvironment _ => s.binding.automatic = true
  | .refresh => s.binding.automatic = true
  | .apply onlyImportant => onlyImportant = false

end Session

/-- The tokens of a text that has any. -/
def Token.scanned (text : String) : List Token := (Token.scan text none).toOption.getD []

/-- A text that has tokens, none of which is an import. -/
def Token.isPlain (text : String) : Bool :=
  (Token.scan text none).toOption.any (·.all (!Import.isImport ·.kind))

private theorem Reader.ofText_plain (r : Reader) (extension : String) {text : String}
    (plain : Token.isPlain text = true) :
    r.ofText extension text = r.build (Token.scanned text) := by
  unfold Token.isPlain at plain
  cases scanned : Token.scan text none with
  | error e =>
      rw [scanned] at plain
      cases plain
  | ok tokens =>
      rw [scanned] at plain
      have unchanged : ∀ token ∈ tokens, Import.isImport token.kind = false := by
        simpa [Except.toOption] using plain
      have expanded : Import.ofText r.source extension text = .ok tokens := by
        rw [Import.ofText, scanned]
        dsimp only
        rw [Import.inlined_plain unchanged]
        rfl
      rw [ofText, expanded, Token.scanned, scanned]
      rfl

theorem Session.step_load {κ V : Type} [Widget V] (s : Session κ V) {text : String}
    (plain : Token.isPlain text = true) :
    s.step (.ask (.load text)) =
      { s with
        theme := s.theme.adopt
          ((s.theme.reader s.theme.config.location).build (Token.scanned text)) } := by
  unfold step Theme.perform Theme.load
  dsimp only
  rw [Reader.ofText_plain _ _ plain]

private theorem Theme.normal_adopt {κ : Type} {t : Theme κ} {reader : Reader}
    {result : Except SheetError (List Token)} :
    (t.adopt (result.bind reader.build)).sheet.rules.Normal := by
  cases result with
  | error e => exact Rules.closed_normal.empty
  | ok tokens =>
      show (t.adopt (reader.build tokens)).sheet.rules.Normal
      cases built : reader.build tokens with
      | error e => exact Rules.closed_normal.empty
      | ok s => exact Reader.rules_build Rules.closed_normal built

theorem Theme.normal_perform {κ : Type} {t : Theme κ} (h : t.sheet.rules.Normal)
    (request : Request κ) : (t.perform request).1.sheet.rules.Normal := by
  cases request with
  | load text => exact Theme.normal_adopt
  | loadFile file place => exact Theme.normal_adopt
  | reload => exact Theme.normal_adopt
  | register plugin => exact h
  | subscribe callback => exact h
  | unsubscribe id => exact h

namespace Binding

variable {V : Type} [Widget V]

theorem sameStyle_apply (b : Binding) (view : V) (onlyImportant : Bool) :
    b.SameStyle (b.apply view onlyImportant).1 := by
  cases onlyImportant with
  | true => exact sameStyle_write b view b.computed.important
  | false => exact (sameStyle_write b view b.computed.all).trans (sameStyle_foldl_giveBack _ _)

private theorem SameStyle.styled?_eq {b b' : Binding} (h : b.SameStyle b') (element : Element)
    (p : String) : b'.styled? element p = b.styled? element p := by
  unfold styled? surroundings
  rw [h.computed_eq, h.environment_eq]

def recomputed {κ : Type} (b : Binding) (theme : Theme κ) (view : V) : Binding :=
  { b with computed := theme.compute ⟨Widget.tag view, b.traitTag, b.environment⟩ }

theorem restyle_eq {κ : Type} (b : Binding) (theme : Theme κ) (view : V) :
    b.restyle theme view =
      if b.automatic then
        (((b.recomputed theme view).apply view false).1,
          ((b.recomputed theme view).apply view false).2.1)
      else (b.recomputed theme view, view) :=
  rfl

theorem NormalKeys.recomputed {κ : Type} {b : Binding} (h : b.NormalKeys) {theme : Theme κ}
    (rules : theme.sheet.rules.Normal) (view : V) : (b.recomputed theme view).NormalKeys where
  all _ _ found := Cascade.normal_of_find?_compute rules _ _ (.inl found)
  important _ _ found := Cascade.normal_of_find?_compute rules _ _ (.inr found)
  written := h.written

end Binding

namespace Session

variable {κ V : Type} [Widget V]

/-- What holds of a session at all times; its view was `base` at the start. -/
structure Sound (base : V) (s : Session κ V) : Prop where
  tracks : Binding.Tracks base s.binding s.view
  normal : s.binding.NormalKeys
  rules : s.theme.sheet.rules.Normal

theorem sound_start (config : Config) (loader : Loader) (automatic : Bool)
    (environment : Environment) (view : V) :
    Sound view (start config loader automatic environment view : Session κ V) where
  tracks := Binding.tracks_fresh view automatic environment
  normal := by refine ⟨?_, ?_, ?_⟩ <;> nofun
  rules := Rules.closed_normal.empty

variable {base : V}

private theorem Sound.recomputed {s : Session κ V} (h : Sound base s) :
    Sound base { s with binding := s.binding.recomputed s.theme s.view } where
  tracks := h.tracks.of_eq rfl rfl
  normal := h.normal.recomputed h.rules s.view
  rules := h.rules

private theorem Sound.withSettings {s : Session κ V} (h : Sound base s) (traitTag : Option String)
    (environment : Environment) :
    Sound base { s with binding := { s.binding with traitTag, environment } } where
  tracks := h.tracks.of_eq rfl rfl
  normal := ⟨h.normal.all, h.normal.important, h.normal.written⟩
  rules := h.rules

section

variable [LawfulWidget V]

private theorem Sound.apply {s : Session κ V} (h : Sound base s) (onlyImportant : Bool) :
    Sound base (s.withStyled ((s.binding.apply s.view onlyImportant).1,
      (s.binding.apply s.view onlyImportant).2.1)) where
  tracks := h.tracks.apply onlyImportant
  normal := h.normal.apply s.view onlyImportant
  rules := h.rules

private theorem Sound.restyle {s : Session κ V} (h : Sound base s) :
    Sound base (s.withStyled (s.binding.restyle s.theme s.view)) := by
  rw [Binding.restyle_eq]
  split
  · exact h.recomputed.apply false
  · exact h.recomputed

private theorem Sound.step {s : Session κ V} (h : Sound base s) (action : Action κ) :
    Sound base (s.step action) := by
  cases action with
  | ask request => exact ⟨h.tracks, h.normal, Theme.normal_perform h.rules request⟩
  | replaceFiles loader => exact ⟨h.tracks, h.normal, h.rules⟩
  | setTrait traitTag => exact (h.withSettings traitTag s.binding.environment).restyle
  | setEnvironment environment => exact (h.withSettings s.binding.traitTag environment).restyle
  | refresh => exact h.restyle
  | apply onlyImportant => exact h.apply onlyImportant

theorem Sound.run {s : Session κ V} (h : Sound base s) (actions : List (Action κ)) :
    Sound base (s.run actions) := by
  induction actions generalizing s with
  | nil => exact h
  | cons action actions ih => exact ih (h.step action)

private theorem Sound.shows_apply {s : Session κ V} (h : Sound base s) (p : String) :
    Binding.Shows ((s.binding.apply s.view false).1.styled? (Element.ofView s.view) p)
      (Widget.propertyValue base p)
      (Widget.propertyValue (s.binding.apply s.view false).2.1 p) := by
  rw [(Binding.sameStyle_apply s.binding s.view false).styled?_eq]
  exact h.tracks.shows h.normal p

private theorem Sound.shows_restyle {s : Session κ V} (h : Sound base s)
    (automatic : s.binding.automatic = true) (p : String) :
    Binding.Shows ((s.binding.restyle s.theme s.view).1.styled? (Element.ofView s.view) p)
      (Widget.propertyValue base p)
      (Widget.propertyValue (s.binding.restyle s.theme s.view).2 p) := by
  rw [Binding.restyle_eq, if_pos automatic]
  exact h.recomputed.shows_apply p

end

end Session

/-- A view that is a list of properties with their values. -/
structure PropertyList where
  tag : String
  values : OrderedMap (Option Resolved)

instance : Widget PropertyList where
  tag := PropertyList.tag
  hasProperty view p := view.values.contains p
  propertyValue view p := (view.values.find? p).join
  setProperty view p value := { view with values := view.values.insert p value }

instance : LawfulWidget PropertyList where
  hasProperty_setProperty view p q value has := by
    show (view.values.insert p value).contains q = view.values.contains q
    rw [OrderedMap.contains, OrderedMap.find?_insert]
    split
    · rename_i here
      exact here ▸ has.symm
    · rfl
  propertyValue_setProperty view p q value _ := by
    show ((view.values.insert p value).find? q).join =
      if q = p then value else (view.values.find? q).join
    rw [OrderedMap.find?_insert]
    split <;> rfl

namespace Session

variable {κ V : Type} [Widget V] [LawfulWidget V]

/-- After any run, an action that applies everything makes the view show its style: a property that
the style gives a value has that value, and any other property has the value from the start. -/
theorem shows_run (config : Config) (loader : Loader) (automatic : Bool)
    (environment : Environment) (view : V) (actions : List (Action κ)) (last : Action κ)
    (full : ((start config loader automatic environment view).run actions).AppliesAll last)
    (p : String) :
    let before := (start config loader automatic environment view).run actions
    let after := before.step last
    Binding.Shows (after.binding.styled? (Element.ofView before.view) p)
      (Widget.propertyValue view p) (Widget.propertyValue after.view p) := by
  intro before after
  have sound : Sound view before :=
    (sound_start config loader automatic environment view).run actions
  cases last with
  | ask request => exact full.elim
  | replaceFiles loader => exact full.elim
  | setTrait traitTag =>
      exact (sound.withSettings traitTag before.binding.environment).shows_restyle full p
  | setEnvironment environment =>
      exact (sound.withSettings before.binding.traitTag environment).shows_restyle full p
  | refresh => exact sound.shows_restyle full p
  | apply onlyImportant =>
      cases full
      exact sound.shows_apply p

/-- A text that is styled by hand, the important properties first. -/
theorem shows_run_label :
    let label : PropertyList :=
      ⟨"Label", (∅ : OrderedMap _).insert "text" (some (.literal (.text "plain")))⟩
    let before : Session Unit PropertyList :=
      (start {} Bundles.empty.load false {} label).run
        [.ask (.load ".Label \x7b text: styled !important; alpha: 0.5; \x7d"), .refresh, .apply true]
    let after := before.step (.apply false)
    before.AppliesAll (.apply false) ∧
      Binding.Shows (after.binding.styled? (Element.ofView before.view) "text")
        (some (.literal (.text "plain"))) (Widget.propertyValue after.view "text") :=
  ⟨rfl, shows_run {} _ false {} _ _ (.apply false) rfl "text"⟩

end Session

end ViewStyle
