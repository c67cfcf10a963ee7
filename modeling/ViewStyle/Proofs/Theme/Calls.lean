/-
What a request comes to with all the callbacks that it leads to. If no callback asks for a load in
turn, the calls end, and all requests that they make leave the stylesheet in its place.
-/

import ViewStyle.Theme.Notification

set_option autoImplicit false

namespace ViewStyle

variable {κ σ : Type}

def Request.isLoad : Request κ → Bool
  | .load _ => true
  | .loadFile _ _ => true
  | .reload => true
  | _ => false

def Request.plugin? : Request κ → Option Plugin
  | .register plugin => some plugin
  | _ => none

namespace Theme

/-- The stylesheet that a load leaves behind. -/
def sheetOf : Except SheetError Builder.State → Stylesheet
  | .ok s => s.sheet
  | .error _ => ∅

def serialOf (serial : Nat) : Except SheetError Builder.State → Nat
  | .ok s => s.serial
  | .error _ => serial

theorem adopt_eq (t : Theme κ) (result : Except SheetError Builder.State) :
    t.adopt result = { t with sheet := sheetOf result, serial := serialOf t.serial result } := by
  cases result <;> rfl

/-- What a theme still has of an earlier one after some requests. -/
structure Follows (t : Theme κ) (requests : List (Request κ)) (t' : Theme κ) : Prop where
  config : t'.config = t.config
  loader : t'.loader = t.loader
  registry : t'.registry = t.registry ++ requests.filterMap (·.plugin?)
  sheet : (∀ request ∈ requests, request.isLoad = false) → t'.sheet = t.sheet
  target : (∀ request ∈ requests, request.isLoad = false) →
    t'.file = t.file ∧ t'.place = t.place

theorem Follows.refl (t : Theme κ) : t.Follows [] t where
  config := rfl
  loader := rfl
  registry := (List.append_nil _).symm
  sheet _ := rfl
  target _ := ⟨rfl, rfl⟩

theorem Follows.trans {t t' t'' : Theme κ} {requests requests' : List (Request κ)}
    (h : t.Follows requests t') (h' : t'.Follows requests' t'') :
    t.Follows (requests ++ requests') t'' where
  config := h'.config.trans h.config
  loader := h'.loader.trans h.loader
  registry := by rw [h'.registry, h.registry, List.filterMap_append, List.append_assoc]
  sheet quiet := by
    obtain ⟨first, second⟩ := List.forall_mem_append.1 quiet
    exact (h'.sheet second).trans (h.sheet first)
  target quiet := by
    obtain ⟨first, second⟩ := List.forall_mem_append.1 quiet
    obtain ⟨file, place⟩ := h.target first
    obtain ⟨file', place'⟩ := h'.target second
    exact ⟨file'.trans file, place'.trans place⟩

private theorem follows_load {t t' : Theme κ} {request : Request κ} {file : FileName}
    {place : Location} {result : Except SheetError Builder.State} (load : request.isLoad = true)
    (eq : t' = { t with file, place }.adopt result) : t.Follows [request] t' := by
  have adopted := adopt_eq { t with file, place } result
  have unnamed : request.plugin? = none := by
    cases request with
    | register plugin => cases load
    | _ => rfl
  rw [adopted] at eq
  subst eq
  refine ⟨rfl, rfl, by simp [unnamed], fun quiet => ?_, fun quiet => ?_⟩
  · exact absurd (quiet request List.mem_cons_self) (by simp [load])
  · exact absurd (quiet request List.mem_cons_self) (by simp [load])

theorem follows_perform (t : Theme κ) (request : Request κ) :
    t.Follows [request] (t.perform request).1 := by
  cases request with
  | load text => exact follows_load rfl rfl
  | loadFile file place => exact follows_load rfl rfl
  | reload => exact follows_load rfl rfl
  | register plugin => exact ⟨rfl, rfl, rfl, fun _ => rfl, fun _ => ⟨rfl, rfl⟩⟩
  | subscribe callback =>
      exact ⟨rfl, rfl, (List.append_nil _).symm, fun _ => rfl, fun _ => ⟨rfl, rfl⟩⟩
  | unsubscribe id =>
      exact ⟨rfl, rfl, (List.append_nil _).symm, fun _ => rfl, fun _ => ⟨rfl, rfl⟩⟩

theorem called_perform (t : Theme κ) {request : Request κ} (h : request.isLoad = false) :
    (t.perform request).2 = [] := by
  cases request with
  | load text => cases h
  | loadFile file place => cases h
  | reload => cases h
  | _ => rfl

end Theme

namespace Run

variable {react : κ → Theme κ → σ → σ × List (Request κ)}

/-- No callback asks for a load. -/
def Quiet (react : κ → Theme κ → σ → σ × List (Request κ)) : Prop :=
  ∀ callback theme host, ∀ request ∈ (react callback theme host).2, request.isLoad = false

/-- All tasks of a run get done. The theme has met some requests in the end, in their order. -/
inductive Ends (react : κ → Theme κ → σ → σ × List (Request κ)) :
    Run κ σ → List (Request κ) → Theme κ → σ → Prop
  | done (theme : Theme κ) (host : σ) : Ends react ⟨theme, host, []⟩ [] theme host
  | call {theme theme' : Theme κ} {host host' : σ} {callback : κ} {rest : List (Task κ)}
      {requests : List (Request κ)} :
      Ends react (step react ⟨theme, host, .call callback :: rest⟩) requests theme' host' →
        Ends react ⟨theme, host, .call callback :: rest⟩ requests theme' host'
  | ask {theme theme' : Theme κ} {host host' : σ} {request : Request κ} {rest : List (Task κ)}
      {requests : List (Request κ)} :
      Ends react (step react ⟨theme, host, .ask request :: rest⟩) requests theme' host' →
        Ends react ⟨theme, host, .ask request :: rest⟩ (request :: requests) theme' host'

theorem step_ask (theme : Theme κ) (host : σ) (request : Request κ) (rest : List (Task κ)) :
    step react ⟨theme, host, .ask request :: rest⟩ =
      ⟨(theme.perform request).1, host, (theme.perform request).2.map .call ++ rest⟩ :=
  rfl

theorem Ends.unique {r : Run κ σ} {requests requests' : List (Request κ)} {theme theme' : Theme κ}
    {host host' : σ} (h : Ends react r requests theme host)
    (h' : Ends react r requests' theme' host') :
    requests = requests' ∧ theme = theme' ∧ host = host' := by
  induction h generalizing requests' with
  | done =>
      cases h'
      exact ⟨rfl, rfl, rfl⟩
  | call _ ih =>
      cases h' with
      | call rest => exact ih rest
  | ask _ ih =>
      cases h' with
      | ask rest =>
          obtain ⟨rfl, rfl, rfl⟩ := ih rest
          exact ⟨rfl, rfl, rfl⟩

theorem Ends.follows {r : Run κ σ} {requests : List (Request κ)} {theme : Theme κ} {host : σ}
    (h : Ends react r requests theme host) : r.theme.Follows requests theme := by
  induction h with
  | done => exact .refl _
  | call _ ih => exact ih
  | ask _ ih => exact (Theme.follows_perform _ _).trans ih

def HasNoLoad (tasks : List (Task κ)) : Prop :=
  ∀ request, .ask request ∈ tasks → request.isLoad = false

private theorem hasNoLoad_calls (callbacks : List κ) : HasNoLoad (callbacks.map Task.call) := by
  intro request member
  obtain ⟨callback, -, eq⟩ := List.mem_map.1 member
  cases eq

private theorem hasNoLoad_asks {requests : List (Request κ)}
    (h : ∀ request ∈ requests, request.isLoad = false) : HasNoLoad (requests.map Task.ask) := by
  intro request member
  obtain ⟨request', member', eq⟩ := List.mem_map.1 member
  cases eq
  exact h request member'

private theorem HasNoLoad.append {tasks rest : List (Task κ)} (h : HasNoLoad tasks)
    (h' : HasNoLoad rest) : HasNoLoad (tasks ++ rest) := by
  intro request member
  rcases List.mem_append.1 member with member | member
  · exact h request member
  · exact h' request member

private theorem Ends.hasNoLoad (quiet : Quiet react) {r : Run κ σ} {requests : List (Request κ)}
    {theme : Theme κ} {host : σ} (h : Ends react r requests theme host) (tasks : HasNoLoad r.tasks) :
    ∀ request ∈ requests, request.isLoad = false := by
  induction h with
  | done => exact nofun
  | @call theme _ host _ callback rest _ _ ih =>
      have others : HasNoLoad rest := fun request member =>
        tasks request (List.mem_cons_of_mem _ member)
      exact ih ((hasNoLoad_asks (quiet callback theme host)).append others)
  | @ask theme _ _ _ request rest _ _ ih =>
      have others : HasNoLoad rest := fun request member =>
        tasks request (List.mem_cons_of_mem _ member)
      refine List.forall_mem_cons.2 ⟨tasks request List.mem_cons_self, ih ?_⟩
      exact (hasNoLoad_calls (theme.perform request).2).append others

def HasEnd (react : κ → Theme κ → σ → σ × List (Request κ)) (r : Run κ σ) : Prop :=
  ∃ requests theme host, Ends react r requests theme host

private theorem hasEnd_asks {requests : List (Request κ)} {rest : List (Task κ)}
    (h : ∀ request ∈ requests, request.isLoad = false)
    (others : ∀ theme host, HasEnd react ⟨theme, host, rest⟩) (theme : Theme κ) (host : σ) :
    HasEnd react ⟨theme, host, requests.map .ask ++ rest⟩ := by
  induction requests generalizing theme with
  | nil => exact others theme host
  | cons request requests ih =>
      obtain ⟨first, later⟩ := List.forall_mem_cons.1 h
      obtain ⟨made, theme', host', ends⟩ := ih later (theme.perform request).1
      rw [List.map_cons, List.cons_append]
      refine ⟨request :: made, theme', host', .ask ?_⟩
      rw [step_ask, theme.called_perform first]
      exact ends

private theorem hasEnd_calls (quiet : Quiet react) (callbacks : List κ) (theme : Theme κ)
    (host : σ) : HasEnd react ⟨theme, host, callbacks.map .call⟩ := by
  induction callbacks generalizing theme host with
  | nil => exact ⟨[], theme, host, .done theme host⟩
  | cons callback callbacks ih =>
      obtain ⟨made, theme', host', ends⟩ :=
        hasEnd_asks (quiet callback theme host) ih theme (react callback theme host).1
      exact ⟨made, theme', host', .call ends⟩

/-- A request comes to an end. -/
theorem exists_ends (quiet : Quiet react) (theme : Theme κ) (host : σ) (request : Request κ) :
    ∃ requests theme' host',
      Ends react ⟨theme, host, [.ask request]⟩ (request :: requests) theme' host' := by
  obtain ⟨requests, theme', host', ends⟩ :=
    hasEnd_calls quiet (theme.perform request).2 (theme.perform request).1 host
  refine ⟨requests, theme', host', .ask ?_⟩
  rw [step_ask, List.append_nil]
  exact ends

theorem Ends.exists_follows (quiet : Quiet react) {theme theme' : Theme κ} {host host' : σ}
    {request : Request κ} {requests : List (Request κ)}
    (h : Ends react ⟨theme, host, [.ask request]⟩ requests theme' host') :
    ∃ later, requests = request :: later ∧ (∀ request ∈ later, request.isLoad = false) ∧
      (theme.perform request).1.Follows later theme' := by
  cases h with
  | ask ends =>
      refine ⟨_, rfl, ends.hasNoLoad quiet ?_, ends.follows⟩
      rw [step_ask, List.append_nil]
      exact hasNoLoad_calls _

end Run

end ViewStyle
