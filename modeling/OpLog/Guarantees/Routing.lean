import OpLog.Guarantees.Accepted

/-!
# Which definition governs an entry

The messages alone decide it: an entry goes where the definition received last for its name
puts it, in the form this one gives it, whatever ticks, passes, flushes and clean-ups come
in between. Only a definition that removes itself may be gone by then, and the entry with it.
-/
namespace OpLog.Guarantees.Routing
open Library Source Accepted

/-- What is registered as the messages say it: of each name the latest definition. -/
abbrev Register := String → Option OpLogDefinition

def Register.define (r : Register) (d : OpLogDefinition) : Register :=
  fun name => if name = d.logName then some d else r name

def Register.receive (r : Register) : OpLogMessage → Register
  | .logDefinition d => r.define d
  | .logBundle bundle => bundle.definitions.foldl Register.define r
  | _ => r

/-- The entries of the messages, each with the definition received last for its name; the
definitions of a bundle come before its entries. -/
def governed : Register → List OpLogMessage → List (OpLogData × Option OpLogDefinition)
  | _, [] => []
  | r, msg :: rest =>
    (entriesOf msg).map (fun data => (data, r.receive msg data.logName)) ++
      governed (r.receive msg) rest

def messagesOf (events : List Event) : List OpLogMessage :=
  events.filterMap fun
    | .message _ msg => some msg
    | _ => none

/-- Where the entries went, in order. -/
def routings (outputs : List Output) : List (OpLogData × Option Route) :=
  outputs.filterMap fun
    | .logged data route => some (data, route)
    | _ => none

/-- The definition as a worker that has just registered it holds it. -/
def settings (d : OpLogDefinition) : LogDefinition where
  lastTimeUse := 0
  autoRemoveDefinition := d.autoRemoveDefinition
  header := d.header
  path := d.path
  flushInterval := d.flushInterval
  logType := d.logType
  options := d.options
  files := .empty

/-- The same of what a worker holds: all that is not a use or a file. -/
def bare (d : LogDefinition) : LogDefinition := { d with lastTimeUse := 0, files := .empty }

def bareOf (w : OpLogWorker) (name : String) : Option LogDefinition :=
  (w.definitions.get? name).map bare

/-- The worker holds of a name what was registered last, or it has removed that. -/
def Held (held : Option LogDefinition) (latest : Option OpLogDefinition) : Prop :=
  held = latest.map settings ∨
    held = none ∧ ∃ d, latest = some d ∧ d.autoRemoveDefinition = true

def Tracks (w : OpLogWorker) (r : Register) : Prop := ∀ name, Held (bareOf w name) (r name)

section Warsaw
variable (warsaw : DateTimeUtc → LocalDateTime)

/-- The entry went where the definition puts it, or was discarded with a definition that
removes itself. -/
def Follows (sent : OpLogData × Option Route) (told : OpLogData × Option OpLogDefinition) : Prop :=
  sent.1 = told.1 ∧
    (sent.2 = told.2.map (fun d =>
        (settings d).route sent.1.logName (warsaw sent.1.date) sent.1.log) ∨
      sent.2 = none ∧ ∃ d, told.2 = some d ∧ d.autoRemoveDefinition = true)

/-! ## The operations -/

theorem bareOf_define (w : OpLogWorker) (d : OpLogDefinition) (now : Instant) (name : String) :
    bareOf (w.define d now) name = if name = d.logName then some (settings d) else bareOf w name := by
  unfold bareOf OpLogWorker.define
  rw [KeyedMap.get?_insert]
  by_cases same : name = d.logName
  · rw [if_pos same, if_pos same]
    cases w.definitions.get? d.logName <;> rfl
  · rw [if_neg same, if_neg same]

theorem tracks_define {w : OpLogWorker} {r : Register} (tracks : Tracks w r) (d : OpLogDefinition)
    (now : Instant) : Tracks (w.define d now) (r.define d) := by
  intro name
  rw [bareOf_define]
  unfold Register.define
  by_cases same : name = d.logName
  · rw [if_pos same, if_pos same]
    exact Or.inl rfl
  · rw [if_neg same, if_neg same]
    exact tracks name

theorem tracks_define_all (definitions : List OpLogDefinition) (now : Instant) {w : OpLogWorker}
    {r : Register} (tracks : Tracks w r) :
    Tracks (definitions.foldl (fun w d => w.define d now) w) (definitions.foldl Register.define r) := by
  induction definitions generalizing w r with
  | nil => exact tracks
  | cons d definitions ih => exact ih (tracks_define tracks d now)

/-- `log` touches the use and the files of a definition, nothing else. -/
theorem bareOf_log (w : OpLogWorker) (data : OpLogData) (now : Instant) (name : String) :
    bareOf (w.log warsaw data.logName data.date data.log now) name = bareOf w name := by
  unfold bareOf OpLogWorker.log
  cases stored : w.definitions.get? data.logName with
  | none => rfl
  | some d =>
    dsimp only
    rw [KeyedMap.get?_insert]
    by_cases same : name = data.logName
    · rw [if_pos same, same, stored]
      rfl
    · rw [if_neg same]

theorem bareOf_writePass (w : OpLogWorker) (interval : LogDefinition → Duration) (env : PassEnv)
    (disk : Disk) (name : String) :
    bareOf (w.writePass warsaw interval env disk).1 name = bareOf w name := by
  have visit := w.get?_writePass warsaw interval env disk name
  unfold bareOf
  cases stored : w.definitions.get? name with
  | none =>
    rw [stored] at visit
    rw [visit]
  | some d =>
    rw [stored] at visit
    obtain ⟨files, after⟩ := visit
    rw [after]
    rfl

theorem bareOf_flush (s : World) (env : OpLogWorker.FlushEnv) (name : String) :
    bareOf (s.flush warsaw env).1.worker name = bareOf s.worker name :=
  OpLogWorker.flushLoop_invariant warsaw (fun w _ => bareOf w name = bareOf s.worker name) env.pass
    (fun n w _ disk same => (bareOf_writePass warsaw w _ (env.pass n) disk name).trans same)
    env.deadline 0 s.worker [] s.disk rfl

/-- A clean-up leaves what it holds, or removes a definition that removes itself. -/
theorem bareOf_cleanUp (w : OpLogWorker) (now : Instant) (name : String) :
    bareOf (w.cleanUp now) name = bareOf w name ∨
      bareOf (w.cleanUp now) name = none ∧
        ∃ held, bareOf w name = some held ∧ held.autoRemoveDefinition = true := by
  unfold bareOf
  rw [w.get?_cleanUp now name]
  cases stored : w.definitions.get? name with
  | none => exact Or.inl rfl
  | some d =>
    rw [Option.map_some, Option.filter_some]
    by_cases used : LogDefinition.inUse
        { d with files := d.files.retain fun _ f => f.inUse now } now = true
    · rw [if_pos used]
      exact Or.inl rfl
    · rw [if_neg used]
      refine Or.inr ⟨rfl, bare d, rfl, ?_⟩
      by_contra lasts
      exact used (LogDefinition.inUse_of_lasting (by simpa [bare] using lasts) now)

theorem tracks_cleanUp {w : OpLogWorker} {r : Register} (tracks : Tracks w r) (now : Instant) :
    Tracks (w.cleanUp now) r := by
  intro name
  rcases bareOf_cleanUp w now name with same | ⟨gone, held, stored, removes⟩
  · rw [same]
    exact tracks name
  · refine Or.inr ⟨gone, ?_⟩
    rcases tracks name with latest | ⟨absent, -⟩
    · rw [stored] at latest
      obtain ⟨d, registered, rfl⟩ := Option.map_eq_some_iff.mp latest.symm
      exact ⟨d, registered, removes⟩
    · rw [stored] at absent
      cases absent

/-! ## What an entry meets -/

theorem follows_log {w : OpLogWorker} {r : Register} (tracks : Tracks w r) (data : OpLogData) :
    Follows warsaw (data, w.routeOf warsaw data) (data, r data.logName) := by
  refine ⟨rfl, ?_⟩
  have routed : w.routeOf warsaw data = (bareOf w data.logName).map fun d =>
      d.route data.logName (warsaw data.date) data.log := by
    unfold OpLogWorker.routeOf bareOf
    rw [Option.map_map]
    rfl
  rw [routed]
  rcases tracks data.logName with latest | ⟨gone, removed⟩
  · rw [latest, Option.map_map]
    exact Or.inl rfl
  · rw [gone]
    exact Or.inr ⟨rfl, removed⟩

theorem processLogs_follow (logs : List OpLogData) (now : Instant) {w : OpLogWorker} {r : Register}
    (tracks : Tracks w r) :
    Tracks (w.processLogs warsaw now logs).1 r ∧
      List.Forall₂ (Follows warsaw) (routings (w.processLogs warsaw now logs).2)
        (logs.map fun data => (data, r data.logName)) := by
  induction logs generalizing w with
  | nil => exact ⟨tracks, List.Forall₂.nil⟩
  | cons data logs ih =>
    have after : Tracks (w.processLog warsaw data now).1 r := by
      intro name
      rw [OpLogWorker.processLog, bareOf_log warsaw w data now name]
      exact tracks name
    obtain ⟨tracks', rest⟩ := ih after
    exact ⟨tracks', List.Forall₂.cons (follows_log warsaw tracks data) rest⟩

theorem routings_append (outs outs' : List Output) :
    routings (outs ++ outs') = routings outs ++ routings outs' :=
  List.filterMap_append

theorem routings_flush (s : World) (env : OpLogWorker.FlushEnv) :
    routings (s.flush warsaw env).2 = [] := by
  simp [routings, World.flush]

theorem tracks_flush {s : World} {r : Register} (tracks : Tracks s.worker r)
    (env : OpLogWorker.FlushEnv) : Tracks (s.flush warsaw env).1.worker r := by
  intro name
  rw [bareOf_flush warsaw s env name]
  exact tracks name

/-- One event: the worker goes on holding what is registered, and passes its entries on by it. -/
theorem step_follows (s : World) (r : Register) (event : Event) (tracks : Tracks s.worker r) :
    Tracks (s.step warsaw event).1.worker ((messagesOf [event]).foldl Register.receive r) ∧
      List.Forall₂ (Follows warsaw) (routings (s.step warsaw event).2)
        (governed r (messagesOf [event])) := by
  cases event with
  | writerTick env =>
    refine ⟨fun name => ?_, List.Forall₂.nil⟩
    rw [World.step, OpLogWorker.writeToFiles, bareOf_writePass]
    exact tracks name
  | cleanupTick now deleted completed =>
    obtain ⟨timedOut, noted⟩ := (s.worker.cleanUp now).noteCleanupOutcome_eq completed
    refine ⟨?_, List.Forall₂.nil⟩
    rw [World.step, World.cleanup, noted]
    exact tracks_cleanUp tracks now
  | message env msg =>
    cases msg with
    | flush =>
      refine ⟨tracks_flush warsaw tracks env.flush, ?_⟩
      rw [World.step, World.onMessage, routings_flush]
      exact List.Forall₂.nil
    | getInfoAndFlush =>
      refine ⟨tracks_flush warsaw tracks env.flush, ?_⟩
      simp only [World.step, World.onMessage, routings_append, routings_flush]
      exact List.Forall₂.nil
    | logBundle bundle =>
      have follow := processLogs_follow warsaw bundle.logs env.now
        (tracks_define_all bundle.definitions env.now tracks)
      have alone : governed r (messagesOf [.message env (.logBundle bundle)]) =
          bundle.logs.map fun data =>
            (data, bundle.definitions.foldl Register.define r data.logName) := List.append_nil _
      rw [alone]
      exact follow
    | logDefinition d => exact ⟨tracks_define tracks d env.now, List.Forall₂.nil⟩
    | log data =>
      have follow := processLogs_follow warsaw [data] env.now tracks
      exact ⟨follow.1, follow.2⟩
    | stopService => exact ⟨tracks, List.Forall₂.nil⟩
    | cleanUpRemoveAllDefinitions => exact ⟨tracks, List.Forall₂.nil⟩
    | cleanUpDefinition d => exact ⟨tracks, List.Forall₂.nil⟩
    | cleanUpBundle bundle => exact ⟨tracks, List.Forall₂.nil⟩

theorem governed_append (r : Register) (msgs rest : List OpLogMessage) :
    governed r (msgs ++ rest) = governed r msgs ++ governed (msgs.foldl Register.receive r) rest := by
  induction msgs generalizing r with
  | nil => rfl
  | cons msg msgs ih => simp only [List.cons_append, governed, ih, List.foldl_cons, List.append_assoc]

theorem messagesOf_cons (event : Event) (events : List Event) :
    messagesOf (event :: events) = messagesOf [event] ++ messagesOf events :=
  List.filterMap_append (l := [event])

theorem run_follows (s : World) (r : Register) (events : List Event) (tracks : Tracks s.worker r) :
    Tracks (Machine.run (World.step warsaw) s events).1.worker
        ((messagesOf events).foldl Register.receive r) ∧
      List.Forall₂ (Follows warsaw) (routings (Machine.run (World.step warsaw) s events).2)
        (governed r (messagesOf events)) := by
  induction events generalizing s r with
  | nil => exact ⟨tracks, List.Forall₂.nil⟩
  | cons event events ih =>
    obtain ⟨tracks', first⟩ := step_follows warsaw s r event tracks
    obtain ⟨final, rest⟩ := ih _ _ tracks'
    rw [messagesOf_cons, List.foldl_append, governed_append, Machine.run_cons, routings_append]
    exact ⟨final, List.rel_append first rest⟩

/-- In every run of a worker, whatever ticks, outcomes and clocks it meets, the entries passed
to `log` are those of the messages, in their order, and each goes where the definition
received last for its name puts it; only one that removes itself may be gone. -/
theorem messages_decide_routes (disk : Disk) (events : List Event) :
    List.Forall₂ (Follows warsaw)
      (routings (Machine.run (World.step warsaw) ⟨OpLogWorker.new, disk⟩ events).2)
      (governed (fun _ => none) (messagesOf events)) :=
  (run_follows warsaw ⟨OpLogWorker.new, disk⟩ (fun _ => none) events fun _ => Or.inl rfl).2

end Warsaw
end OpLog.Guarantees.Routing
