/-
A host uses a theme: it loads texts and files, registers plugins, subscribes callbacks, and asks
for styles. Whatever it does and in which order, the stylesheet in use is the one of the last load,
or an empty one if that load failed, and a reload reads the last file that was loaded. What the host
got before stays as it was.
-/

import ViewStyle.Proofs.Theme.Readings

set_option autoImplicit false

namespace ViewStyle

variable {κ σ : Type}

/-- What a host does with a theme. -/
inductive Operation (κ : Type)
  | ask (request : Request κ)
  | replaceFiles (loader : Loader)
  | compute (c : Context)
  | valueOf (name : String)
  | hold

/-- What a host gets: the error of a load if it failed, the number of a subscription, whether there
was one, a style, a value, or the stylesheet in use. -/
inductive Answer
  | nothing
  | outcome (failure : Option SheetError)
  | subscription (id : Nat)
  | ended (existed : Bool)
  | style (style : Style)
  | value (value : Option Value)
  | sheet (sheet : Stylesheet)

namespace Operation

def isLoad : Operation κ → Bool
  | .ask request => request.isLoad
  | _ => false

def file? : Operation κ → Option (FileName × Location)
  | .ask request => request.file?
  | _ => none

def loader? : Operation κ → Option Loader
  | .replaceFiles loader => some loader
  | _ => none

/-- What a load reads. There is a reader for every location, and a reload reads the file `last`. -/
def reading? (config : Config) (last : FileName × Location) (reader : Location → Reader) :
    Operation κ → Option (Except SheetError Builder.State)
  | .ask request => request.reading? config last reader
  | _ => none

private theorem exists_reading {op : Operation κ} (h : op.isLoad = true) (config : Config)
    (last : FileName × Location) (reader : Location → Reader) :
    ∃ result, op.reading? config last reader = some result := by
  cases op with
  | ask request => exact Request.exists_reading h config last reader
  | _ => cases h

end Operation

/-- The file that a reload reads after some operations: the last one loaded, or the entry point. -/
def Config.target (config : Config) (operations : List (Operation κ)) : FileName × Location :=
  config.lastFile (operations.filterMap (·.file?))

/-- The files after some operations. -/
def Loader.after (loader : Loader) (operations : List (Operation κ)) : Loader :=
  (operations.filterMap (·.loader?)).getLast?.getD loader

def Theme.answer (t : Theme κ) : Operation κ → Answer
  | .ask (.load text) => .outcome (t.load text).2
  | .ask (.loadFile file place) => .outcome (t.loadFile file place).2
  | .ask .reload => .outcome t.reload.2
  | .ask (.register _) => .nothing
  | .ask (.subscribe callback) => .subscription (t.subscribe callback).1
  | .ask (.unsubscribe id) => .ended (t.unsubscribe id).1
  | .replaceFiles _ => .nothing
  | .compute c => .style (t.compute c)
  | .valueOf name => .value (t.valueOf? name)
  | .hold => .sheet t.sheet

/-- A theme and a host, all that was asked of the theme by the host and by the callbacks, and the
answers that the host got. -/
structure Client (κ σ : Type) where
  theme : Theme κ
  host : σ
  asked : List (Request κ)
  answers : List Answer

namespace Client

def start (config : Config) (loader : Loader) (host : σ) : Client κ σ :=
  ⟨Theme.ofConfig config loader, host, [], []⟩

variable (react : κ → Theme κ → σ → σ × List (Request κ))

inductive Does : Client κ σ → Operation κ → Client κ σ → Prop
  | ask {c : Client κ σ} {request : Request κ} {requests : List (Request κ)} {theme : Theme κ}
      {host : σ} : Run.Ends react ⟨c.theme, c.host, [.ask request]⟩ requests theme host →
        Does c (.ask request)
          ⟨theme, host, c.asked ++ requests, c.answers ++ [c.theme.answer (.ask request)]⟩
  | replaceFiles (c : Client κ σ) (loader : Loader) :
      Does c (.replaceFiles loader)
        { c with
          theme := { c.theme with loader }
          answers := c.answers ++ [c.theme.answer (.replaceFiles loader)] }
  | compute (c : Client κ σ) (context : Context) :
      Does c (.compute context)
        { c with answers := c.answers ++ [c.theme.answer (.compute context)] }
  | valueOf (c : Client κ σ) (name : String) :
      Does c (.valueOf name) { c with answers := c.answers ++ [c.theme.answer (.valueOf name)] }
  | hold (c : Client κ σ) :
      Does c .hold { c with answers := c.answers ++ [c.theme.answer .hold] }

inductive Runs : Client κ σ → List (Operation κ) → Client κ σ → Prop
  | nil (c : Client κ σ) : Runs c [] c
  | cons {c c' c'' : Client κ σ} {op : Operation κ} {operations : List (Operation κ)} :
      Does react c op c' → Runs c' operations c'' → Runs c (op :: operations) c''

variable {react} {c c' c'' : Client κ σ} {op : Operation κ} {operations : List (Operation κ)}

private theorem Does.unique (h : Does react c op c') (h' : Does react c op c'') : c' = c'' := by
  cases h with
  | ask ends =>
      cases h' with
      | ask ends' =>
          obtain ⟨rfl, rfl, rfl⟩ := ends.unique ends'
          rfl
  | _ =>
      cases h'
      rfl

private theorem Does.answers_eq (h : Does react c op c') :
    c'.answers = c.answers ++ [c.theme.answer op] := by
  cases h <;> rfl

private theorem exists_does (quiet : Run.Quiet react) (c : Client κ σ) (op : Operation κ) :
    ∃ c', Does react c op c' := by
  cases op with
  | ask request =>
      obtain ⟨requests, theme, host, ends⟩ := Run.exists_ends quiet c.theme c.host request
      exact ⟨_, .ask ends⟩
  | replaceFiles loader => exact ⟨_, .replaceFiles c loader⟩
  | compute context => exact ⟨_, .compute c context⟩
  | valueOf name => exact ⟨_, .valueOf c name⟩
  | hold => exact ⟨_, .hold c⟩

private theorem Runs.unique (h : Runs react c operations c') (h' : Runs react c operations c'') :
    c' = c'' := by
  induction h with
  | nil =>
      cases h'
      rfl
  | cons does _ ih =>
      cases h' with
      | cons does' runs' =>
          obtain rfl := does.unique does'
          exact ih runs'

private theorem exists_runs (quiet : Run.Quiet react) (c : Client κ σ)
    (operations : List (Operation κ)) : ∃ c', Runs react c operations c' := by
  induction operations generalizing c with
  | nil => exact ⟨c, .nil c⟩
  | cons op operations ih =>
      obtain ⟨c', does⟩ := exists_does quiet c op
      obtain ⟨c'', runs⟩ := ih c'
      exact ⟨c'', .cons does runs⟩

private theorem Runs.split {before after : List (Operation κ)}
    (h : Runs react c (before ++ after) c'') :
    ∃ c', Runs react c before c' ∧ Runs react c' after c'' := by
  induction before generalizing c with
  | nil => exact ⟨c, .nil c, h⟩
  | cons op before ih =>
      cases h with
      | cons does runs =>
          obtain ⟨c', first, second⟩ := ih runs
          exact ⟨c', .cons does first, second⟩

private theorem Runs.answers_prefix (h : Runs react c operations c') :
    c.answers <+: c'.answers := by
  induction h with
  | nil => exact List.prefix_refl _
  | cons does _ ih =>
      rw [does.answers_eq] at ih
      exact (List.prefix_append _ _).trans ih

structure Sound (config : Config) (loader : Loader) (operations : List (Operation κ))
    (c : Client κ σ) : Prop where
  config_eq : c.theme.config = config
  loader_eq : c.theme.loader = loader.after operations
  registry_eq : c.theme.registry = config.registry c.asked
  target_eq : (c.theme.file, c.theme.place) = config.target operations
  answers_length : c.answers.length = operations.length

end Client

private theorem Loader.after_concat (loader : Loader) (operations : List (Operation κ))
    (op : Operation κ) :
    loader.after (operations ++ [op]) = op.loader?.getD (loader.after operations) := by
  rw [Loader.after, List.filterMap_append]
  cases named : op.loader? with
  | none => simp [named, Loader.after]
  | some files => simp [named]

private theorem Theme.answer_of_reading {t : Theme κ} {request : Request κ}
    {result : Except SheetError Builder.State} (reading : t.reading? request = some result) :
    t.answer (.ask request) = .outcome (failure? result) := by
  cases request with
  | load text =>
      cases reading
      rfl
  | loadFile file place =>
      cases reading
      rfl
  | reload =>
      cases reading
      rfl
  | _ => cases reading

namespace Client

variable {react : κ → Theme κ → σ → σ × List (Request κ)} {c c' c'' : Client κ σ}
  {op : Operation κ} {operations : List (Operation κ)} {config : Config} {loader : Loader}

private theorem sound_start (config : Config) (loader : Loader) (host : σ) :
    Sound config loader [] (start config loader host : Client κ σ) where
  config_eq := rfl
  loader_eq := rfl
  registry_eq := (List.append_nil _).symm
  target_eq := rfl
  answers_length := rfl

private theorem Does.sheet_eq (quiet : Run.Quiet react) (h : Does react c op c')
    (other : op.isLoad = false) : c'.theme.sheet = c.theme.sheet := by
  cases h with
  | ask ends =>
      obtain ⟨later, rfl, no_load, follows⟩ := ends.exists_follows quiet
      exact ends.follows.sheet (List.forall_mem_cons.2 ⟨other, no_load⟩)
  | _ => rfl

private theorem Does.target_eq (quiet : Run.Quiet react) (h : Does react c op c') :
    (c'.theme.file, c'.theme.place) = op.file?.getD (c.theme.file, c.theme.place) := by
  cases h with
  | ask ends =>
      obtain ⟨later, -, no_load, follows⟩ := ends.exists_follows quiet
      obtain ⟨file, place⟩ := follows.target no_load
      rw [file, place]
      exact Theme.target_perform _ _
  | _ => rfl

private theorem Does.loader_eq (h : Does react c op c') :
    c'.theme.loader = op.loader?.getD c.theme.loader := by
  cases h with
  | ask ends => exact ends.follows.loader
  | _ => rfl

/-- One operation. -/
theorem Sound.step (quiet : Run.Quiet react) (sound : Sound config loader operations c)
    (h : Does react c op c') : Sound config loader (operations ++ [op]) c' where
  config_eq := by
    cases h with
    | ask ends => exact ends.follows.config.trans sound.config_eq
    | _ => exact sound.config_eq
  loader_eq := by
    rw [h.loader_eq, sound.loader_eq, Loader.after_concat]
  registry_eq := by
    cases h with
    | ask ends =>
        rw [ends.follows.registry, sound.registry_eq]
        simp [Config.registry]
    | _ => exact sound.registry_eq
  target_eq := by
    rw [h.target_eq quiet, sound.target_eq, Config.target, Config.target, Config.lastFile_concat]
  answers_length := by
    rw [h.answers_eq, List.length_append, List.length_append, sound.answers_length]
    rfl

private theorem Sound.runs (quiet : Run.Quiet react) {before after : List (Operation κ)}
    (sound : Sound config loader before c) (h : Runs react c after c') :
    Sound config loader (before ++ after) c' := by
  induction h generalizing before with
  | nil => rwa [List.append_nil]
  | cons does _ ih =>
      have rest := ih (sound.step quiet does)
      rwa [List.append_assoc, List.singleton_append] at rest

private theorem Runs.sheet_eq (quiet : Run.Quiet react) (h : Runs react c operations c')
    (others : ∀ op ∈ operations, op.isLoad = false) : c'.theme.sheet = c.theme.sheet := by
  induction h with
  | nil => rfl
  | cons does _ ih =>
      obtain ⟨first, later⟩ := List.forall_mem_cons.1 others
      exact (ih later).trans (does.sheet_eq quiet first)

private theorem Sound.sheet_of_load (quiet : Run.Quiet react)
    (sound : Sound config loader operations c)
    (h : Does react c op c') {result : Except SheetError Builder.State}
    (reading : op.reading? config (config.target operations)
      (config.reader c.asked (loader.after operations) c.theme.serial) = some result) :
    c'.theme.sheet = Theme.sheetOf result ∧
      c.theme.answer op = .outcome (Theme.failure? result) := by
  have reader_eq : config.reader c.asked (loader.after operations) c.theme.serial =
      c.theme.reader := by
    funext place
    rw [Config.reader, Theme.reader, sound.registry_eq, sound.loader_eq]
  rw [reader_eq, ← sound.target_eq, ← sound.config_eq] at reading
  cases h with
  | ask ends =>
      obtain ⟨later, -, no_load, follows⟩ := ends.exists_follows quiet
      have performed : (c.theme.perform _).1.sheet = Theme.sheetOf result :=
        congrArg (·.1.sheet) (Theme.perform_of_reading reading)
      exact ⟨(follows.sheet no_load).trans performed, Theme.answer_of_reading reading⟩
  | _ => cases reading

/-- Every run of a host whose callbacks ask for no load has one result. A reload is a load of the
target. Without any load the stylesheet is empty; after a load it is the one that a fresh reader gets
with the plugins and files of that moment, or an empty one if the reader gets an error, until another
load follows. Every answer stays what it was. -/
theorem sheet_of_last_load (config : Config) (loader : Loader) (quiet : Run.Quiet react) (host : σ)
    (operations : List (Operation κ)) :
    ∃ c, Runs react (start config loader host) operations c ∧
      (∀ c', Runs react (start config loader host) operations c' → c' = c) ∧
      c.theme.perform .reload = c.theme.perform
        (.loadFile (config.target operations).1 (config.target operations).2) ∧
      ((∀ op ∈ operations, op.isLoad = false) → c.theme.sheet = ∅) ∧
      ∀ before op after, operations = before ++ op :: after →
        ∃ c₀, Runs react (start config loader host) before c₀ ∧
          c.answers[before.length]? = some (c₀.theme.answer op) ∧
            (op.isLoad = true → ∃ result, op.reading? config (config.target before)
              (config.reader c₀.asked (loader.after before) c₀.theme.serial) = some result ∧
                c₀.theme.answer op = .outcome (Theme.failure? result) ∧
                  ((∀ later ∈ after, later.isLoad = false) →
                    c.theme.sheet = Theme.sheetOf result)) := by
  obtain ⟨c, runs⟩ := exists_runs quiet (start config loader host) operations
  have sound : Sound config loader operations c := (sound_start config loader host).runs quiet runs
  refine ⟨c, runs, fun c' runs' => runs'.unique runs, ?_, ?_, ?_⟩
  · rw [← sound.target_eq]
    rfl
  · intro no_load
    exact runs.sheet_eq quiet no_load
  · rintro before op after rfl
    obtain ⟨c₀, runs₀, rest⟩ := runs.split
    cases rest with
    | @cons _ c₁ _ _ _ does later =>
        have sound₀ : Sound config loader before c₀ :=
          (sound_start config loader host).runs quiet runs₀
        refine ⟨c₀, runs₀, ?_, ?_⟩
        · obtain ⟨added, answers⟩ := later.answers_prefix
          rw [← answers, does.answers_eq, ← sound₀.answers_length]
          simp
        · intro load
          obtain ⟨result, reading⟩ := Operation.exists_reading load config (config.target before)
            (config.reader c₀.asked (loader.after before) c₀.theme.serial)
          obtain ⟨sheet, answer⟩ := sound₀.sheet_of_load quiet does reading
          exact ⟨result, reading, answer, fun no_load => (later.sheet_eq quiet no_load).trans sheet⟩

/-- A reload of a file that is missing; the callback ends its own subscription. -/
theorem sheet_of_last_load_missing :
    let react : Unit → Theme Unit → Nat → Nat × List (Request Unit) :=
      fun _ _ calls => (calls + 1, [.unsubscribe 0])
    let operations : List (Operation Unit) :=
      [.ask (.subscribe ()), .ask (.loadFile ⟨"a", "less"⟩ (.bundle "app")),
        .ask (.load ".A \x7b x: 1; \x7d"), .valueOf "x", .ask .reload, .hold]
    Run.Quiet react ∧ ∃ c, Runs react (start {} Bundles.empty.load 0) operations c ∧
      c.theme.sheet = ∅ ∧
        c.answers[4]? = some (.outcome (some (.load (.notFound ⟨"a", "less"⟩ "bundle 'app'")))) := by
  intro react operations
  have quiet : Run.Quiet react := by
    intro callback theme host request member
    obtain rfl := List.mem_singleton.1 member
    rfl
  obtain ⟨c, runs, -, -, -, loads⟩ := sheet_of_last_load {} Bundles.empty.load quiet 0 operations
  obtain ⟨c₀, -, answer, reload⟩ := loads (operations.take 4) (.ask .reload) [.hold] rfl
  obtain ⟨result, reading, outcome, sheet⟩ := reload rfl
  have missing : Bundles.empty.load ⟨"a", "less"⟩ (.bundle "app") =
      .error (.notFound ⟨"a", "less"⟩ "bundle 'app'") := rfl
  have failed : (Config.reader {} c₀.asked Bundles.empty.load c₀.theme.serial
      (.bundle "app")).ofFile ⟨"a", "less"⟩ =
        .error (.load (.notFound ⟨"a", "less"⟩ "bundle 'app'")) := by
    simp [Reader.ofFile, Config.reader, Import.ofFile, Import.inlinedFile, fileLimit, missing,
      Except.map, bind, Except.bind]
  obtain rfl := Option.some.inj (reading.symm.trans (congrArg some failed))
  refine ⟨quiet, c, runs, sheet (by decide), ?_⟩
  rw [outcome] at answer
  exact answer

end Client

end ViewStyle
