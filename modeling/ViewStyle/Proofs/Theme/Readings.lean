/-
What a load reads. It follows from what was asked of the theme before: which plugins there are, which
file was loaded last, and how many values the plugins have read.
-/

import ViewStyle.Proofs.Theme.Calls

set_option autoImplicit false

namespace ViewStyle

variable {κ : Type}

namespace Request

def file? : Request κ → Option (FileName × Location)
  | .loadFile file place => some (file, place)
  | _ => none

def reading? (config : Config) (last : FileName × Location) (reader : Location → Reader) :
    Request κ → Option (Except SheetError Builder.State)
  | .load text => some ((reader config.location).ofText config.entryPoint.extension text)
  | .loadFile file place => some ((reader place).ofFile file)
  | .reload => some ((reader last.2).ofFile last.1)
  | _ => none

theorem exists_reading {request : Request κ} (load : request.isLoad = true) (config : Config)
    (last : FileName × Location) (reader : Location → Reader) :
    ∃ result, request.reading? config last reader = some result := by
  cases request with
  | load text => exact ⟨_, rfl⟩
  | loadFile file place => exact ⟨_, rfl⟩
  | reload => exact ⟨_, rfl⟩
  | _ => cases load

end Request

namespace Config

def lastFile (config : Config) (files : List (FileName × Location)) : FileName × Location :=
  files.getLast?.getD (config.entryPoint, config.location)

theorem lastFile_concat (config : Config) {α : Type} (file? : α → Option (FileName × Location))
    (before : List α) (last : α) :
    config.lastFile ((before ++ [last]).filterMap file?) =
      (file? last).getD (config.lastFile (before.filterMap file?)) := by
  rw [lastFile, List.filterMap_append]
  cases named : file? last with
  | none => simp [named, lastFile]
  | some file => simp [named]

def registry (config : Config) (requests : List (Request κ)) : Registry :=
  (if config.builtinPlugins then Registry.builtins else []) ++ requests.filterMap (·.plugin?)

/-- A fresh reader with the plugins and the files of some moment. The number of values that plugins
have read by then only keeps later ones apart from them. -/
def reader (config : Config) (requests : List (Request κ)) (files : Loader) (serial : Nat)
    (place : Location) : Reader :=
  ⟨config.registry requests, fun file => files file place, serial⟩

end Config

namespace Theme

def reading? (t : Theme κ) (request : Request κ) : Option (Except SheetError Builder.State) :=
  request.reading? t.config (t.file, t.place) t.reader

/-- A load puts what it reads in the place of the stylesheet, whoever has subscribed. -/
theorem perform_of_reading {t : Theme κ} {request : Request κ}
    {result : Except SheetError Builder.State} (reading : t.reading? request = some result) :
    t.perform request =
      ({ t with
          file := (request.file?.getD (t.file, t.place)).1
          place := (request.file?.getD (t.file, t.place)).2
          sheet := sheetOf result
          serial := serialOf t.serial result }, t.callbacks) := by
  cases request with
  | load text =>
      cases reading
      exact congrArg (·, t.callbacks) (t.adopt_eq _)
  | loadFile file place =>
      cases reading
      exact congrArg (·, t.callbacks) (adopt_eq { t with file, place } _)
  | reload =>
      cases reading
      exact congrArg (·, t.callbacks) (t.adopt_eq _)
  | _ => cases reading

theorem perform_of_no_reading {t : Theme κ} {request : Request κ}
    (no_load : t.reading? request = none) :
    request.file? = none ∧ (t.perform request).1.file = t.file ∧
      (t.perform request).1.place = t.place ∧ (t.perform request).1.serial = t.serial := by
  cases request with
  | load text => cases no_load
  | loadFile file place => cases no_load
  | reload => cases no_load
  | _ => exact ⟨rfl, rfl, rfl, rfl⟩

theorem target_perform (t : Theme κ) (request : Request κ) :
    ((t.perform request).1.file, (t.perform request).1.place) =
      request.file?.getD (t.file, t.place) := by
  cases reading : t.reading? request with
  | some result => rw [perform_of_reading reading]
  | none =>
      obtain ⟨unnamed, file, place, -⟩ := perform_of_no_reading reading
      rw [unnamed, file, place, Option.getD_none]

end Theme

end ViewStyle
