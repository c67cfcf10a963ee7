/-
The log of a run: who subscribes and who leaves, what loads read and put in place, and which
callbacks are called. It tells that every load puts the stylesheet in place that it reads, and calls
those who are subscribed at that moment, each once and in the order of their subscriptions; each of
them sees that stylesheet or a later one, and a load inside a callback is over with all its calls
before the next callback has its turn.
-/

import ViewStyle.Proofs.Theme.Readings

set_option autoImplicit false

namespace ViewStyle

variable {κ σ : Type}

/-- What comes of a task. An install follows what its request has read, leaves a stylesheet in place
and has to tell some subscribers; a callback sees the stylesheet in use. -/
inductive Happening (κ : Type)
  | installed (request : Request κ) (result : Except SheetError Builder.State) (sheet : Stylesheet)
      (told : List (Nat × κ))
  | called (callback : κ) (seen : Stylesheet)
  | subscribed (id : Nat) (callback : κ)
  | ended (id : Nat) (existed : Bool)
  | registered (plugin : Plugin)

namespace Theme

def install (t : Theme κ) (request : Request κ) (result : Except SheetError Builder.State) :
    Happening κ :=
  .installed request result (t.perform request).1.sheet t.subscriptions

def happening (t : Theme κ) : Task κ → Happening κ
  | .call callback => .called callback t.sheet
  | .ask (.load text) =>
      t.install (.load text)
        ((t.reader t.config.location).ofText t.config.entryPoint.extension text)
  | .ask (.loadFile file place) => t.install (.loadFile file place) ((t.reader place).ofFile file)
  | .ask .reload => t.install .reload ((t.reader t.place).ofFile t.file)
  | .ask (.register plugin) => .registered plugin
  | .ask (.subscribe callback) => .subscribed (t.subscribe callback).1 callback
  | .ask (.unsubscribe id) => .ended id (t.unsubscribe id).1

end Theme

namespace Run

/-- The tasks that are done on the way from one run to another leave a log. -/
inductive Logs (react : κ → Theme κ → σ → σ × List (Request κ)) :
    Run κ σ → List (Happening κ) → Run κ σ → Prop
  | here (r : Run κ σ) : Logs react r [] r
  | next {theme : Theme κ} {host : σ} {task : Task κ} {rest : List (Task κ)}
      {log : List (Happening κ)} {r : Run κ σ} :
      Logs react (step react ⟨theme, host, task :: rest⟩) log r →
        Logs react ⟨theme, host, task :: rest⟩ (theme.happening task :: log) r

end Run

namespace Log

def subscriptions (log : List (Happening κ)) : List (Nat × κ) :=
  log.foldl (fun current happening =>
    match happening with
    | .subscribed id callback => current ++ [(id, callback)]
    | .ended id _ => current.filter (·.1 != id)
    | _ => current) []

def number? : Happening κ → Option Nat
  | .subscribed id _ => some id
  | _ => none

def sheet? : Happening κ → Option Stylesheet
  | .installed _ _ sheet _ => some sheet
  | _ => none

def result? : Happening κ → Option (Except SheetError Builder.State)
  | .installed _ result _ _ => some result
  | _ => none

def request? : Happening κ → Option (Request κ)
  | .installed request _ _ _ => some request
  | .called _ _ => none
  | .subscribed _ callback => some (.subscribe callback)
  | .ended id _ => some (.unsubscribe id)
  | .registered plugin => some (.register plugin)

def numbers (log : List (Happening κ)) : List Nat := log.filterMap number?

def sheets (log : List (Happening κ)) : List Stylesheet := log.filterMap sheet?

def requests (log : List (Happening κ)) : List (Request κ) := log.filterMap request?

def serial (log : List (Happening κ)) : Nat := (log.filterMap result?).foldl Theme.serialOf 0

def reading? (config : Config) (loader : Loader) (log : List (Happening κ)) (request : Request κ) :
    Option (Except SheetError Builder.State) :=
  request.reading? config (config.lastFile ((requests log).filterMap (·.file?)))
    (config.reader (requests log) loader (serial log))

/-- The happening follows from what was before: an install puts in place what its request reads, an
empty stylesheet if that is an error, and tells the subscribers of that moment; a callback sees the
last stylesheet that was put in place, a subscription gets a new number, and a subscription that is
ended is told to have been there if it was. -/
def Fits (config : Config) (loader : Loader) (before : List (Happening κ)) : Happening κ → Prop
  | .installed request result sheet told =>
      reading? config loader before request = some result ∧ sheet = Theme.sheetOf result ∧
        told = subscriptions before
  | .called _ seen => (sheets before).getLast? = some seen
  | .subscribed id _ => id ∉ numbers before
  | .ended id existed => existed = true ↔ id ∈ (subscriptions before).map (·.1)
  | .registered _ => True

/-- The log does tasks one after the other, each with all that it leads to: behind a call stands
what the callback asks for, and behind an install one call for each subscriber that it has to tell.
-/
inductive Completes : List (Task κ) → List (Happening κ) → Prop
  | nil : Completes [] []
  | call {callback : κ} {seen : Stylesheet} {requests : List (Request κ)} {rest : List (Task κ)}
      {inside log : List (Happening κ)} : Completes (requests.map .ask) inside →
        Completes rest log →
          Completes (.call callback :: rest) (.called callback seen :: (inside ++ log))
  | load {request : Request κ} {result : Except SheetError Builder.State} {sheet : Stylesheet}
      {told : List (Nat × κ)} {rest : List (Task κ)} {calls log : List (Happening κ)} :
      request.isLoad = true →
        Completes (told.map fun subscription => .call subscription.2) calls → Completes rest log →
          Completes (.ask request :: rest) (.installed request result sheet told :: (calls ++ log))
  | register {plugin : Plugin} {rest : List (Task κ)} {log : List (Happening κ)} :
      Completes rest log → Completes (.ask (.register plugin) :: rest) (.registered plugin :: log)
  | subscribe {callback : κ} {id : Nat} {rest : List (Task κ)} {log : List (Happening κ)} :
      Completes rest log →
        Completes (.ask (.subscribe callback) :: rest) (.subscribed id callback :: log)
  | unsubscribe {id : Nat} {existed : Bool} {rest : List (Task κ)} {log : List (Happening κ)} :
      Completes rest log → Completes (.ask (.unsubscribe id) :: rest) (.ended id existed :: log)

private theorem Completes.split {first second : List (Task κ)} {log : List (Happening κ)}
    (h : Completes (first ++ second) log) :
    ∃ early late, log = early ++ late ∧ Completes first early ∧ Completes second late := by
  induction first generalizing log with
  | nil => exact ⟨[], log, rfl, .nil, h⟩
  | cons task first ih =>
      cases h with
      | call inside rest =>
          obtain ⟨early, late, rfl, here, there⟩ := ih rest
          exact ⟨_, late, by rw [← List.append_assoc]; rfl, .call inside here, there⟩
      | load load calls rest =>
          obtain ⟨early, late, rfl, here, there⟩ := ih rest
          exact ⟨_, late, by rw [← List.append_assoc]; rfl, .load load calls here, there⟩
      | register rest =>
          obtain ⟨early, late, rfl, here, there⟩ := ih rest
          exact ⟨_ :: early, late, rfl, .register here, there⟩
      | subscribe rest =>
          obtain ⟨early, late, rfl, here, there⟩ := ih rest
          exact ⟨_ :: early, late, rfl, .subscribe here, there⟩
      | unsubscribe rest =>
          obtain ⟨early, late, rfl, here, there⟩ := ih rest
          exact ⟨_ :: early, late, rfl, .unsubscribe here, there⟩

private theorem happening_of_reading {t : Theme κ} {request : Request κ}
    {result : Except SheetError Builder.State} (reading : t.reading? request = some result) :
    t.happening (.ask request) = t.install request result := by
  cases request with
  | load text =>
      cases reading
      rfl
  | loadFile file place =>
      cases reading
      rfl
  | reload =>
      cases reading
      rfl
  | _ => cases reading

variable {react : κ → Theme κ → σ → σ × List (Request κ)}

private theorem completes_of_logs {r r' : Run κ σ} {log : List (Happening κ)}
    (h : Run.Logs react r log r') (done : r'.tasks = []) : Completes r.tasks log := by
  -- Every step puts what it leads to in front of the other tasks, where `split` finds it again.
  induction h with
  | here r =>
      rw [done]
      exact .nil
  | @next theme host task rest log r' _ ih =>
      have later := ih done
      cases task with
      | call callback =>
          obtain ⟨inside, log, rfl, here, there⟩ := later.split
          exact .call here there
      | ask request =>
          rw [Run.step_ask] at later
          obtain ⟨early, log, rfl, here, there⟩ := later.split
          cases load : request.isLoad with
          | true =>
              obtain ⟨result, reading⟩ := Request.exists_reading load theme.config
                (theme.file, theme.place) theme.reader
              rw [Theme.perform_of_reading reading, Theme.callbacks, List.map_map] at here
              rw [happening_of_reading reading]
              exact .load load here there
          | false =>
              rw [theme.called_perform load] at here
              cases here
              cases request with
              | register plugin => exact .register there
              | subscribe callback => exact .subscribe there
              | unsubscribe id => exact .unsubscribe there
              | _ => cases load

section

variable {α : Type} (part? : Happening κ → Option α) (log : List (Happening κ))
  (happening : Happening κ)

private theorem filterMap_concat :
    (log ++ [happening]).filterMap part? = log.filterMap part? ++ (part? happening).toList := by
  rw [List.filterMap_append, List.filterMap_cons, List.filterMap_nil]
  cases part? happening <;> rfl

private theorem subscriptions_concat :
    subscriptions (log ++ [happening]) =
      match happening with
      | .subscribed id callback => subscriptions log ++ [(id, callback)]
      | .ended id _ => (subscriptions log).filter (·.1 != id)
      | _ => subscriptions log := by
  rw [subscriptions, List.foldl_append]
  rfl

end

variable {config : Config} {loader : Loader} {log : List (Happening κ)} {t : Theme κ}

structure Provides (config : Config) (loader : Loader) (log : List (Happening κ)) (t : Theme κ) :
    Prop where
  follows : (Theme.ofConfig config loader).Follows (requests log) t
  target_eq : (t.file, t.place) = config.lastFile ((requests log).filterMap (·.file?))
  serial_eq : t.serial = serial log

private theorem Provides.reading_eq (h : Provides config loader log t) (request : Request κ) :
    t.reading? request = reading? config loader log request := by
  have reader_eq : t.reader = config.reader (requests log) loader (serial log) := by
    funext place
    rw [Theme.reader, Config.reader, h.follows.registry, h.follows.loader, h.serial_eq]
    rfl
  rw [Theme.reading?, reading?, h.target_eq, reader_eq, h.follows.config]
  rfl

private theorem Provides.call (h : Provides config loader log t) (callback : κ) :
    Provides config loader (log ++ [t.happening (.call callback)]) t := by
  have same : requests (log ++ [t.happening (.call callback)]) = requests log := by
    rw [requests, filterMap_concat]
    exact List.append_nil _
  refine ⟨?_, ?_, ?_⟩
  · rw [same]
    exact h.follows
  · rw [same]
    exact h.target_eq
  · rw [h.serial_eq, serial, serial, filterMap_concat]
    exact congrArg (List.foldl _ 0) (List.append_nil _).symm

private theorem Provides.ask (h : Provides config loader log t) (request : Request κ) :
    Provides config loader (log ++ [t.happening (.ask request)]) (t.perform request).1 := by
  have asked : request? (t.happening (.ask request)) = some request := by
    cases request <;> rfl
  have read : result? (t.happening (.ask request)) = t.reading? request := by
    cases request <;> rfl
  have more : requests (log ++ [t.happening (.ask request)]) = requests log ++ [request] := by
    rw [requests, filterMap_concat, asked]
    rfl
  refine ⟨?_, ?_, ?_⟩
  · rw [more]
    exact h.follows.trans (t.follows_perform request)
  · rw [more, Config.lastFile_concat, ← h.target_eq, t.target_perform]
  · rw [serial, filterMap_concat, read, List.foldl_append]
    cases reading : t.reading? request with
    | some result =>
        rw [Theme.perform_of_reading reading]
        exact congrArg (Theme.serialOf · result) h.serial_eq
    | none =>
        obtain ⟨-, -, -, same⟩ := Theme.perform_of_no_reading reading
        exact same.trans h.serial_eq

/-- What a log says about the theme that it leads to, and the tasks that are left: callbacks are
only called once there is a stylesheet to tell them of. -/
structure Describes (config : Config) (loader : Loader) (log : List (Happening κ)) (t : Theme κ)
    (tasks : List (Task κ)) : Prop where
  provides : Provides config loader log t
  subscriptions_eq : t.subscriptions = subscriptions log
  numbers_lt : ∀ id ∈ numbers log, id < t.nextId
  sheet_eq : ∀ sheet, (sheets log).getLast? = some sheet → t.sheet = sheet
  sheets_ne : ∀ callback, .call callback ∈ tasks → sheets log ≠ []

private theorem describes_start (config : Config) (loader : Loader) (requests : List (Request κ)) :
    Describes config loader [] (Theme.ofConfig config loader) (requests.map .ask) where
  provides := ⟨.refl _, rfl, rfl⟩
  subscriptions_eq := rfl
  numbers_lt := nofun
  sheet_eq := nofun
  sheets_ne callback member := by
    obtain ⟨request, -, eq⟩ := List.mem_map.1 member
    cases eq

section

variable {t' : Theme κ} {task : Task κ} {tasks tasks' : List (Task κ)}

private theorem Describes.quiet (h : Describes config loader log t tasks) {happening : Happening κ}
    (no_sheet : sheet? happening = none)
    (provides : Provides config loader (log ++ [happening]) t')
    (subscriptions_eq : t'.subscriptions = subscriptions (log ++ [happening]))
    (numbers_lt : ∀ id ∈ numbers (log ++ [happening]), id < t'.nextId) (same : t'.sheet = t.sheet)
    (calls : ∀ callback, .call callback ∈ tasks' → .call callback ∈ tasks) :
    Describes config loader (log ++ [happening]) t' tasks' := by
  have same_sheets : sheets (log ++ [happening]) = sheets log := by
    rw [sheets, filterMap_concat, no_sheet, Option.toList_none, List.append_nil, sheets]
  refine ⟨provides, subscriptions_eq, numbers_lt, ?_, ?_⟩
  · rw [same_sheets, same]
    exact h.sheet_eq
  · rw [same_sheets]
    exact fun callback member => h.sheets_ne callback (calls callback member)

private theorem Describes.numbers_concat_lt (h : Describes config loader log t tasks)
    {happening : Happening κ} (unnumbered : number? happening = none) :
    ∀ id ∈ numbers (log ++ [happening]), id < t.nextId := by
  intro id member
  rw [numbers, filterMap_concat, unnumbered, Option.toList_none, List.append_nil] at member
  exact h.numbers_lt id member

private theorem Describes.call {callback : κ} {requests : List (Request κ)}
    (h : Describes config loader log t (.call callback :: tasks)) :
    Fits config loader log (t.happening (.call callback)) ∧
      Describes config loader (log ++ [t.happening (.call callback)]) t
        (requests.map .ask ++ tasks) := by
  have last := List.getLast?_eq_some_getLast (h.sheets_ne callback List.mem_cons_self)
  refine ⟨?_, h.quiet rfl (h.provides.call callback) ?_ (h.numbers_concat_lt rfl) rfl ?_⟩
  · rw [Theme.happening, Fits, h.sheet_eq _ last, last]
  · rw [subscriptions_concat]
    exact h.subscriptions_eq
  · intro callback' member
    rcases List.mem_append.1 member with member | member
    · obtain ⟨request, -, eq⟩ := List.mem_map.1 member
      cases eq
    · exact List.mem_cons_of_mem _ member

private theorem Describes.load {request : Request κ} {result : Except SheetError Builder.State}
    (reading : t.reading? request = some result)
    (h : Describes config loader log t (.ask request :: tasks)) :
    Fits config loader log (t.happening (.ask request)) ∧
      Describes config loader (log ++ [t.happening (.ask request)]) (t.perform request).1
        tasks' := by
  have provides := h.provides.ask request
  have performed := Theme.perform_of_reading reading
  rw [happening_of_reading reading, Theme.install] at provides ⊢
  have sheet_eq : (t.perform request).1.sheet = Theme.sheetOf result := by rw [performed]
  have placed : sheets (log ++ [.installed request result (t.perform request).1.sheet
      t.subscriptions]) = sheets log ++ [(t.perform request).1.sheet] := by
    rw [sheets, filterMap_concat]
    rfl
  refine ⟨⟨?_, sheet_eq, h.subscriptions_eq⟩, provides, ?_, ?_, ?_, ?_⟩
  · rw [← h.provides.reading_eq, reading]
  · rw [subscriptions_concat, performed]
    exact h.subscriptions_eq
  · have same : (t.perform request).1.nextId = t.nextId := by rw [performed]
    rw [same]
    exact h.numbers_concat_lt rfl
  · intro sheet last
    rw [placed, List.getLast?_concat] at last
    exact Option.some.inj last
  · intro _ _
    rw [placed]
    exact List.concat_ne_nil _ _

private theorem Describes.subscribe {callback : κ}
    (h : Describes config loader log t (.ask (.subscribe callback) :: tasks)) :
    Fits config loader log (t.happening (.ask (.subscribe callback))) ∧
      Describes config loader (log ++ [t.happening (.ask (.subscribe callback))])
        (t.subscribe callback).2 tasks := by
  refine ⟨fun given => Nat.lt_irrefl _ (h.numbers_lt _ given),
    h.quiet rfl (h.provides.ask (.subscribe callback)) ?_ ?_ rfl ?_⟩
  · rw [subscriptions_concat]
    exact congrArg (· ++ [(t.nextId, callback)]) h.subscriptions_eq
  · intro id member
    rw [numbers, filterMap_concat] at member
    rcases List.mem_append.1 member with member | member
    · exact Nat.lt_succ_of_lt (h.numbers_lt id member)
    · obtain rfl := List.mem_singleton.1 member
      exact Nat.lt_succ_self _
  · exact fun callback member => List.mem_cons_of_mem _ member

private theorem Describes.unsubscribe {id : Nat}
    (h : Describes config loader log t (.ask (.unsubscribe id) :: tasks)) :
    Fits config loader log (t.happening (.ask (.unsubscribe id))) ∧
      Describes config loader (log ++ [t.happening (.ask (.unsubscribe id))])
        (t.unsubscribe id).2 tasks := by
  refine ⟨?_, h.quiet rfl (h.provides.ask (.unsubscribe id)) ?_ (h.numbers_concat_lt rfl) rfl ?_⟩
  · rw [Theme.happening, Fits, ← h.subscriptions_eq, Theme.unsubscribe]
    simp
  · rw [subscriptions_concat]
    exact congrArg (List.filter (·.1 != id)) h.subscriptions_eq
  · exact fun callback member => List.mem_cons_of_mem _ member

private theorem Describes.register {plugin : Plugin}
    (h : Describes config loader log t (.ask (.register plugin) :: tasks)) :
    Fits config loader log (t.happening (.ask (.register plugin))) ∧
      Describes config loader (log ++ [t.happening (.ask (.register plugin))])
        (t.register plugin) tasks := by
  refine ⟨trivial,
    h.quiet rfl (h.provides.ask (.register plugin)) ?_ (h.numbers_concat_lt rfl) rfl ?_⟩
  · rw [subscriptions_concat]
    exact h.subscriptions_eq
  · exact fun callback member => List.mem_cons_of_mem _ member

end

/-- One step: what happens fits what was before. -/
private theorem Describes.step {theme : Theme κ} {host : σ} {task : Task κ} {rest : List (Task κ)}
    (h : Describes config loader log theme (task :: rest)) :
    Fits config loader log (theme.happening task) ∧
      Describes config loader (log ++ [theme.happening task])
        (Run.step react ⟨theme, host, task :: rest⟩).theme
        (Run.step react ⟨theme, host, task :: rest⟩).tasks := by
  cases task with
  | call callback => exact h.call
  | ask request =>
      rw [Run.step_ask]
      cases request with
      | load text => exact h.load rfl
      | loadFile file place => exact h.load rfl
      | reload => exact h.load rfl
      | register plugin => exact h.register
      | subscribe callback => exact h.subscribe
      | unsubscribe id => exact h.unsubscribe

private theorem fits_of_logs {r r' : Run κ σ} {earlier : List (Happening κ)}
    (h : Run.Logs react r log r') (described : Describes config loader earlier r.theme r.tasks)
    {before after : List (Happening κ)} {happening : Happening κ}
    (here : log = before ++ happening :: after) :
    Fits config loader (earlier ++ before) happening := by
  induction h generalizing earlier before with
  | here r => exact absurd here (by simp)
  | @next theme host task rest log r _ ih =>
      obtain ⟨fits, later⟩ : Fits config loader earlier _ ∧
          Describes config loader _ (Run.step react ⟨theme, host, task :: rest⟩).theme _ :=
        described.step
      cases before with
      | nil =>
          cases here
          rwa [List.append_nil]
      | cons first before =>
          cases here
          have found := ih later rfl
          rwa [List.append_assoc] at found

/-- Whatever a host asks of a fresh theme, and whatever the callbacks ask for in turn: at every
moment all that happened fits what was before it, and once everything is done each load has called
those who were subscribed when its stylesheet came, each once and in their order, and each of these
calls was over, with all loads and calls inside it, before the next one. What a callback asks for
may depend on anything, as the host and its reactions are arbitrary. -/
theorem told_of_logs (config : Config) (loader : Loader) (host : σ) (requests : List (Request κ))
    {log : List (Happening κ)} {r : Run κ σ}
    (h : Run.Logs react ⟨.ofConfig config loader, host, requests.map .ask⟩ log r) :
    (r.tasks = [] → Completes (requests.map .ask) log) ∧
      ∀ before happening after, log = before ++ happening :: after →
        Fits config loader before happening := by
  refine ⟨fun done => completes_of_logs h done, ?_⟩
  intro before happening after here
  exact fits_of_logs h (describes_start config loader requests) here

/-- The first callback leaves, comes back with another number, and reloads a file that is missing.
The load inside tells the second callback and the new subscription before the second callback hears
of the outer load, and then that one finds the empty stylesheet of the load inside. -/
theorem told_of_logs_reload :
    let react : Bool → Theme Bool → Nat → Nat × List (Request Bool) := fun _ _ calls =>
      (calls + 1, if calls = 0 then [.unsubscribe 0, .subscribe true, .reload] else [])
    let text := ".A \x7b x: 1; \x7d"
    let requests : List (Request Bool) := [.subscribe true, .subscribe false, .load text]
    let missing : SheetError := .load (.notFound ⟨"main", "less"⟩ "directory '.'")
    ∃ (outer : Except SheetError Builder.State) (log : List (Happening Bool)) (r : Run Bool Nat),
      log = [.subscribed 0 true, .subscribed 1 false,
          .installed (.load text) outer (Theme.sheetOf outer) [(0, true), (1, false)],
          .called true (Theme.sheetOf outer), .ended 0 true, .subscribed 2 true,
          .installed .reload (.error missing) ∅ [(1, false), (2, true)], .called false ∅,
          .called true ∅, .called false ∅] ∧
        Run.Logs react ⟨.ofConfig {} Bundles.empty.load, 0, requests.map .ask⟩ log r ∧
          r.tasks = [] ∧ Completes (requests.map .ask) log ∧
            ∀ before happening after, log = before ++ happening :: after →
              Fits {} Bundles.empty.load before happening := by
  intro react text requests missing
  let start : Theme Bool := .ofConfig {} Bundles.empty.load
  let both : Theme Bool := ((start.subscribe true).2.subscribe false).2
  let outer := (both.reader both.config.location).ofText both.config.entryPoint.extension text
  let first : Theme Bool :=
    { both with sheet := Theme.sheetOf outer, serial := Theme.serialOf 0 outer }
  let back : Theme Bool := ((first.unsubscribe 0).2.subscribe true).2
  let second : Theme Bool := { back with sheet := ∅ }
  have loads : both.perform (.load text) = (first, [true, false]) :=
    Theme.perform_of_reading (t := both) rfl
  have installs : both.happening (.ask (.load text)) =
      .installed (.load text) outer (Theme.sheetOf outer) [(0, true), (1, false)] := by
    rw [happening_of_reading rfl, Theme.install, loads]
    rfl
  have nowhere : Bundles.empty.load ⟨"main", "less"⟩ (.directory ".") =
      .error (.notFound ⟨"main", "less"⟩ "directory '.'") := rfl
  have reads : back.reading? .reload = some (.error missing) := by
    show some ((back.reader (.directory ".")).ofFile ⟨"main", "less"⟩) = _
    have source : (back.reader (.directory ".")).source ⟨"main", "less"⟩ = _ := nowhere
    simp [Reader.ofFile, Import.ofFile, Import.inlinedFile, fileLimit, source, Except.map, bind,
      Except.bind, missing]
  have reloads : back.perform .reload = (second, [false, true]) := Theme.perform_of_reading reads
  have installs_nothing : back.happening (.ask .reload) =
      .installed .reload (.error missing) ∅ [(1, false), (2, true)] := by
    rw [happening_of_reading reads, Theme.install, reloads]
    rfl
  have inside : Run.Logs react ⟨back, 1, [.ask .reload, .call false]⟩
      [.installed .reload (.error missing) ∅ [(1, false), (2, true)], .called false ∅,
        .called true ∅, .called false ∅] ⟨second, 4, []⟩ := by
    rw [← installs_nothing]
    refine .next ?_
    rw [Run.step_ask, reloads]
    exact .next (.next (.next (.here _)))
  have behind : Run.Logs react ⟨both, 0, [.ask (.load text)]⟩
      [.installed (.load text) outer (Theme.sheetOf outer) [(0, true), (1, false)],
        .called true (Theme.sheetOf outer), .ended 0 true, .subscribed 2 true,
        .installed .reload (.error missing) ∅ [(1, false), (2, true)], .called false ∅,
        .called true ∅, .called false ∅] ⟨second, 4, []⟩ := by
    rw [← installs]
    refine .next ?_
    rw [Run.step_ask, loads]
    exact .next (.next (.next inside))
  refine ⟨outer, _, ⟨second, 4, []⟩, rfl, ?_⟩
  obtain ⟨completes, fits⟩ :=
    told_of_logs {} Bundles.empty.load 0 requests (.next (.next behind))
  exact ⟨.next (.next behind), rfl, completes rfl, fits⟩

end Log

end ViewStyle
