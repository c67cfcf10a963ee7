/-
What happens after a load. All callbacks that are subscribed at that moment are called in their
order, and each may ask the theme for something in turn: a load inside a callback calls all its
callbacks before the next one of the outer load has its turn.
-/

import ViewStyle.Theme.Basic

set_option autoImplicit false

namespace ViewStyle

/-- What can be asked of a theme. -/
inductive Request (κ : Type)
  | load (text : String)
  | loadFile (file : FileName) (place : Location)
  | reload
  | register (plugin : Plugin)
  | subscribe (callback : κ)
  | unsubscribe (id : Nat)

/-- The theme after a request, and the callbacks that have to be called. -/
def Theme.perform {κ : Type} (t : Theme κ) : Request κ → Theme κ × List κ
  | .load text => ((t.load text).1, t.callbacks)
  | .loadFile file place => ((t.loadFile file place).1, t.callbacks)
  | .reload => (t.reload.1, t.callbacks)
  | .register plugin => (t.register plugin, [])
  | .subscribe callback => ((t.subscribe callback).2, [])
  | .unsubscribe id => ((t.unsubscribe id).2, [])

/-- What is still to be done. -/
inductive Task (κ : Type)
  | call (callback : κ)
  | ask (request : Request κ)

/-- A theme, a host around it, and the tasks from the next to the last. -/
structure Run (κ σ : Type) where
  theme : Theme κ
  host : σ
  tasks : List (Task κ)

namespace Run

variable {κ σ : Type}

/-- Does the next task. `react` is what a callback does to the host, and what it asks for. -/
def step (react : κ → Theme κ → σ → σ × List (Request κ)) (r : Run κ σ) : Run κ σ :=
  match r.tasks with
  | [] => r
  | .call callback :: rest =>
      let (host, requests) := react callback r.theme r.host
      { r with host, tasks := requests.map .ask ++ rest }
  | .ask request :: rest =>
      let (theme, called) := r.theme.perform request
      { r with theme, tasks := called.map .call ++ rest }

end Run

end ViewStyle
