import OpLog.Guarantees.Drain

/-!
# Is a freshly registered definition usable?

A definition goes with the clean-up when it has no files in use and was itself not used for
ten minutes. Registering counts as a use only for a new name: `def` of a known one keeps the
old `last_time_use`, so a definition that was idle for long can be removed right after it
was registered again, and the entries for it are discarded.
-/
namespace OpLog.Guarantees.Registration
open Library Source Drain

/-- The clock reading of an event, where it decides something here. -/
def timeOf : Event → Option Instant
  | .writerTick _ => none
  | .cleanupTick now _ _ => some now
  | .message env _ => some env.now

/-- Events from time `t` to time `t'`, their clock never going back. -/
def Timed : Instant → Instant → List Event → Prop
  | t, t', [] => t ≤ t'
  | t, t', event :: events => t ≤ (timeOf event).getD t ∧ Timed ((timeOf event).getD t) t' events

/-- The event registers a definition of this name. -/
def Registers (name : String) : Event → Prop
  | .message _ (.logDefinition d) => d.logName = name
  | .message _ (.logBundle bundle) => ∃ d ∈ bundle.definitions, d.logName = name
  | _ => False

/-- No use lies ahead, and no file was used later than its definition. -/
structure Clocked (now : Instant) (w : OpLogWorker) : Prop where
  definitions : ∀ name d, w.definitions.get? name = some d → d.lastTimeUse ≤ now
  files : ∀ name key d f, w.definitions.get? name = some d → w.file? name key = some f →
    f.lastTimeUse ≤ d.lastTimeUse

/-- The definition of this name stays, used no earlier than before; where `sameFlag` says
so it keeps its flag too. -/
def Carries (name : String) (sameFlag : Prop) (w w' : OpLogWorker) : Prop :=
  ∀ d, w.definitions.get? name = some d → ∃ d', w'.definitions.get? name = some d' ∧
    d.lastTimeUse ≤ d'.lastTimeUse ∧ (sameFlag → d'.autoRemoveDefinition = d.autoRemoveDefinition)

theorem carries_refl (name : String) (sameFlag : Prop) (w : OpLogWorker) : Carries name sameFlag w w :=
  fun d stored => ⟨d, stored, Nat.le_refl _, fun _ => rfl⟩

theorem carries_trans {name : String} {sameFlag : Prop} {w w' w'' : OpLogWorker}
    (first : Carries name sameFlag w w') (second : Carries name sameFlag w' w'') :
    Carries name sameFlag w w'' := by
  intro d stored
  obtain ⟨d', stored', later, flag⟩ := first d stored
  obtain ⟨d'', stored'', later', flag'⟩ := second d' stored'
  exact ⟨d'', stored'', Nat.le_trans later later', fun same => (flag' same).trans (flag same)⟩

theorem clocked_mono {t now : Instant} {w : OpLogWorker} (clocked : Clocked t w) (later : t ≤ now) :
    Clocked now w :=
  ⟨fun name d stored => Nat.le_trans (clocked.definitions name d stored) later, clocked.files⟩

/-! ## The operations -/

section Operations
variable {warsaw : DateTimeUtc → LocalDateTime} {w : OpLogWorker} {now : Instant}

theorem clocked_define (clocked : Clocked now w) (d : OpLogDefinition) :
    Clocked now (w.define d now) := by
  constructor
  · intro name stored h
    obtain ⟨new, -, used, get⟩ := w.get?_define d now name
    rw [get] at h
    split at h
    · cases h
      rw [used]
      cases old : w.definitions.get? d.logName with
      | none => exact Nat.le_refl now
      | some old' => exact clocked.definitions _ _ old
    · exact clocked.definitions name stored h
  · intro name key stored f h live
    rw [OpLogWorker.file?_define] at live
    obtain ⟨new, -, used, get⟩ := w.get?_define d now name
    rw [get] at h
    split at h
    · rename_i same
      subst same
      cases h
      rw [used]
      cases old : w.definitions.get? d.logName with
      | none =>
        rw [OpLogWorker.file?_of_none key old] at live
        cases live
      | some old' => exact clocked.files _ key old' f old live
    · exact clocked.files name key stored f h live

theorem carries_define (name : String) (d : OpLogDefinition) (now : Instant) :
    Carries name (d.logName ≠ name) w (w.define d now) := by
  intro old stored
  obtain ⟨new, -, used, get⟩ := w.get?_define d now name
  rw [get]
  by_cases same : name = d.logName
  · subst same
    rw [stored] at used
    exact ⟨new, if_pos rfl, Nat.le_of_eq used.symm, fun other => absurd rfl other⟩
  · exact ⟨old, (if_neg same).trans stored, Nat.le_refl _, fun _ => rfl⟩

theorem clocked_log (clocked : Clocked now w) (data : OpLogData) :
    Clocked now (w.log warsaw data.logName data.date data.log now) := by
  cases routedTo : w.routeOf warsaw data with
  | none =>
    rw [OpLogWorker.log_unregistered warsaw now routedTo]
    exact clocked
  | some r =>
    constructor
    · intro name d stored
      rcases w.get?_log warsaw data now name with ⟨-, same⟩ | ⟨old, d', -, -, used, -, new⟩
      · exact clocked.definitions name d (same ▸ stored)
      · rw [new] at stored
        cases stored
        exact Nat.le_of_eq used
    · intro name key d f stored live
      obtain ⟨routing, file⟩ := OpLogWorker.file?_log warsaw now routedTo name key
      rw [file] at live
      rcases w.get?_log warsaw data now name with ⟨other, same⟩ | ⟨old, d', hit, before, used, -, new⟩
      · rw [same] at stored
        rw [if_neg] at live
        · exact clocked.files name key d f stored live
        · rintro ⟨hit, -⟩
          rcases other with other | unregistered
          · exact other hit
          · rw [unregistered] at stored
            cases stored
      · rw [new] at stored
        cases stored
        rw [used]
        split at live
        · cases live
          exact Nat.le_refl now
        · exact Nat.le_trans (clocked.files name key old f before live)
            (clocked.definitions name old before)

theorem carries_log (clocked : Clocked now w) (name : String) (sameFlag : Prop) (data : OpLogData) :
    Carries name sameFlag w (w.log warsaw data.logName data.date data.log now) := by
  intro d stored
  rcases w.get?_log warsaw data now name with ⟨-, same⟩ | ⟨old, d', -, before, used, flag, new⟩
  · exact ⟨d, same.trans stored, Nat.le_refl _, fun _ => rfl⟩
  · rw [stored] at before
    cases before
    exact ⟨d', new, used ▸ clocked.definitions name d stored, fun _ => flag⟩

/-- What clean-up asks of a definition besides its files. -/
def clockOf (w : OpLogWorker) (name : String) : Option (Instant × Bool) :=
  (w.definitions.get? name).map fun d => (d.lastTimeUse, d.autoRemoveDefinition)

theorem clockOf_eq_some {name : String} {d : LogDefinition}
    (stored : w.definitions.get? name = some d) :
    clockOf w name = some (d.lastTimeUse, d.autoRemoveDefinition) := by
  unfold clockOf
  rw [stored, Option.map_some]

theorem of_clockOf {name : String} {u : Instant} {auto : Bool}
    (clock : clockOf w name = some (u, auto)) :
    ∃ d, w.definitions.get? name = some d ∧ d.lastTimeUse = u ∧ d.autoRemoveDefinition = auto := by
  obtain ⟨d, stored, same⟩ := Option.map_eq_some_iff.mp clock
  cases same
  exact ⟨d, stored, rfl, rfl⟩

theorem carries_of_clockOf {w' : OpLogWorker} {name : String} (sameFlag : Prop)
    (same : clockOf w' name = clockOf w name) : Carries name sameFlag w w' := by
  intro d stored
  obtain ⟨d', stored', used, flag⟩ := of_clockOf (same.trans (clockOf_eq_some stored))
  exact ⟨d', stored', Nat.le_of_eq used.symm, fun _ => flag⟩

variable (warsaw) in
/-- A pass touches no definition's clock or flag, and uses no file. -/
theorem clockOf_writePass (interval : LogDefinition → Duration) (env : PassEnv) (disk : Disk)
    (name : String) : clockOf (w.writePass warsaw interval env disk).1 name = clockOf w name := by
  have visit := w.get?_writePass warsaw interval env disk name
  unfold clockOf
  cases before : w.definitions.get? name with
  | none =>
    rw [before] at visit
    rw [visit]
  | some d =>
    rw [before] at visit
    obtain ⟨files, after⟩ := visit
    rw [after, Option.map_some, Option.map_some]

/-- Where every definition and every file was there before, used when it was, the clocks stay
in order. -/
theorem clocked_of_before {t : Instant} (clocked : Clocked t w) {w' : OpLogWorker}
    (definition : ∀ name d, w'.definitions.get? name = some d →
      ∃ old, w.definitions.get? name = some old ∧ d.lastTimeUse = old.lastTimeUse)
    (file : ∀ name key f, w'.file? name key = some f →
      ∃ old, w.file? name key = some old ∧ f.lastTimeUse = old.lastTimeUse) : Clocked t w' := by
  constructor
  · intro name d stored
    obtain ⟨old, before, same⟩ := definition name d stored
    rw [same]
    exact clocked.definitions name old before
  · intro name key d f stored live
    obtain ⟨old, before, same⟩ := definition name d stored
    obtain ⟨g, before', same'⟩ := file name key f live
    rw [same, same']
    exact clocked.files name key old g before before'

variable (warsaw) in
theorem clocked_writePass {t : Instant} (clocked : Clocked t w) (interval : LogDefinition → Duration)
    (env : PassEnv) (disk : Disk) : Clocked t (w.writePass warsaw interval env disk).1 := by
  apply clocked_of_before clocked
  · intro name d stored
    obtain ⟨old, before, used, -⟩ :=
      of_clockOf ((clockOf_writePass warsaw interval env disk name).symm.trans (clockOf_eq_some stored))
    exact ⟨old, before, used.symm⟩
  · intro name key f live
    have visit := w.file?_writePass warsaw interval env disk name key
    cases live' : w.file? name key with
    | none =>
      rw [live'] at visit
      rw [visit.1] at live
      cases live
    | some g =>
      rw [live'] at visit
      obtain ⟨d, content, -, -, file, -⟩ := visit
      rw [file] at live
      cases live
      exact ⟨g, rfl, (writeOne_cases warsaw d (interval d) (env.attempt name key) g content).1⟩

variable (warsaw) in
theorem flushLoop_keeps {t : Instant} (clocked : Clocked t w) (env : Nat → PassEnv) (left n : Nat)
    (disk : Disk) :
    Clocked t (OpLogWorker.flushLoop warsaw env left n w disk).1 ∧
      ∀ name, clockOf (OpLogWorker.flushLoop warsaw env left n w disk).1 name = clockOf w name := by
  refine OpLogWorker.flushLoop_invariant warsaw
    (fun w' _ => Clocked t w' ∧ ∀ name, clockOf w' name = clockOf w name) env ?_ left n w [] disk
    ⟨clocked, fun _ => rfl⟩
  intro n w' past disk kept
  exact ⟨clocked_writePass warsaw kept.1 _ (env n) disk,
    fun name => (clockOf_writePass warsaw _ (env n) disk name).trans (kept.2 name)⟩

/-- What clean-up leaves. -/
theorem clocked_cleanUp {t : Instant} (clocked : Clocked t w) (now : Instant) :
    Clocked t (w.cleanUp now) := by
  apply clocked_of_before clocked
  · intro name d stored
    rw [OpLogWorker.get?_cleanUp] at stored
    obtain ⟨old, before, rfl⟩ := Option.map_eq_some_iff.mp (Option.filter_eq_some_iff.mp stored).1
    exact ⟨old, before, rfl⟩
  · intro name key f live
    rw [OpLogWorker.file?_cleanUp] at live
    exact ⟨f, (Option.filter_eq_some_iff.mp live).1, rfl⟩

/-- Clean-up leaves a definition that was used in the last ten minutes or is not to be
removed. -/
theorem carries_cleanUp (name : String) (sameFlag : Prop) (now : Instant)
    (used : ∀ d, w.definitions.get? name = some d →
      now < d.lastTimeUse + IDLE ∨ d.autoRemoveDefinition = false) :
    Carries name sameFlag w (w.cleanUp now) := by
  intro d stored
  refine ⟨{ d with files := d.files.retain fun _ f => f.inUse now }, ?_, Nat.le_refl _, fun _ => rfl⟩
  rw [OpLogWorker.get?_cleanUp, stored, Option.map_some, Option.filter_some, if_pos]
  rcases used d stored with recent | kept
  · have young := elapsed_lt_idle.mpr recent
    simp [LogDefinition.inUse, young]
  · simp [LogDefinition.inUse, kept]

end Operations

/-! ## Steps and runs -/

section Steps
variable {warsaw : DateTimeUtc → LocalDateTime}

/-- The messages a bundle is short for. -/
def unbundled (env : MessageEnv) (bundle : OpLogBundle) : List Event :=
  bundle.definitions.map (fun d => .message env (.logDefinition d)) ++
    bundle.logs.map (fun data => .message env (.log data))

/-- A bundle does what its definitions and then its entries do one by one. -/
theorem step_bundle (s : World) (env : MessageEnv) (bundle : OpLogBundle) :
    s.step warsaw (.message env (.logBundle bundle)) =
      Machine.run (World.step warsaw) s (unbundled env bundle) := by
  have definitions (s : World) : Machine.run (World.step warsaw) s
      (bundle.definitions.map fun d => .message env (.logDefinition d)) =
      ({ s with worker := bundle.definitions.foldl (fun w d => w.define d env.now) s.worker }, []) := by
    induction bundle.definitions generalizing s with
    | nil => rfl
    | cons d rest ih => rw [List.map_cons, Machine.run_cons, ih]; rfl
  have logs (s : World) : Machine.run (World.step warsaw) s
      (bundle.logs.map fun data => .message env (.log data)) =
      ({ s with worker := (s.worker.processLogs warsaw env.now bundle.logs).1 },
        (s.worker.processLogs warsaw env.now bundle.logs).2) := by
    induction bundle.logs generalizing s with
    | nil => rfl
    | cons data rest ih => rw [List.map_cons, Machine.run_cons, ih]; rfl
  unfold unbundled
  rw [Machine.run_append, definitions, logs]
  rfl

/-- An event before which the definition of this name is not too long out of use to survive
it, and which does not set its flag where that is to stay. -/
def Harmless (name : String) (sameFlag : Prop) (w : OpLogWorker) : Event → Prop
  | .cleanupTick now _ _ => ∀ d, w.definitions.get? name = some d →
      now < d.lastTimeUse + IDLE ∨ d.autoRemoveDefinition = false
  | event => sameFlag → ¬ Registers name event

/-- What stands here of a worker says nothing of its cleanup rules and flags. -/
theorem clocked_of_definitions {w w' : OpLogWorker} {now : Instant}
    (same : w'.definitions = w.definitions) (clocked : Clocked now w) : Clocked now w' := by
  apply clocked_of_before clocked
  · intro name d stored
    rw [same] at stored
    exact ⟨d, stored, rfl⟩
  · intro name key f live
    unfold OpLogWorker.file? at live ⊢
    rw [same] at live
    exact ⟨f, live, rfl⟩

theorem carries_of_definitions {w w' w'' : OpLogWorker} {name : String} {sameFlag : Prop}
    (same : w''.definitions = w'.definitions) (carries : Carries name sameFlag w w') :
    Carries name sameFlag w w'' := by
  intro d stored
  rw [same]
  exact carries d stored

variable (warsaw) in
/-- The step leaves the clocks in order at `now`, and carries the definition where it is
harmless to it. -/
def StepKeeps (name : String) (sameFlag : Prop) (now : Instant) (s : World) (event : Event) : Prop :=
  Clocked now (s.step warsaw event).1.worker ∧
    (Harmless name sameFlag s.worker event →
      Carries name sameFlag s.worker (s.step warsaw event).1.worker)

variable (warsaw) in
theorem step_single (s : World) (event : Event) (name : String) (sameFlag : Prop) {t : Instant}
    (single : ∀ env bundle, event ≠ .message env (.logBundle bundle))
    (later : t ≤ (timeOf event).getD t) (clocked : Clocked t s.worker) :
    StepKeeps warsaw name sameFlag ((timeOf event).getD t) s event := by
  have onTime := clocked_mono clocked later
  cases event with
  | writerTick env =>
    exact ⟨clocked_writePass warsaw onTime _ env s.disk,
      fun _ => carries_of_clockOf sameFlag (clockOf_writePass warsaw _ env s.disk name)⟩
  | cleanupTick now deleted completed =>
    have cleaned : (s.cleanup now deleted completed).worker.definitions =
        (s.worker.cleanUp now).definitions := by
      obtain ⟨timedOut, noted⟩ := (s.worker.cleanUp now).noteCleanupOutcome_eq completed
      unfold World.cleanup
      rw [noted]
    exact ⟨clocked_of_definitions cleaned (clocked_cleanUp onTime now),
      fun harmless => carries_of_definitions cleaned (carries_cleanUp name sameFlag now harmless)⟩
  | message env msg =>
    obtain ⟨flushed, same⟩ := flushLoop_keeps warsaw onTime env.flush.pass
      env.flush.deadline 0 s.disk
    cases msg with
    | stopService => exact ⟨onTime, fun _ => carries_refl _ _ _⟩
    | flush => exact ⟨flushed, fun _ => carries_of_clockOf sameFlag (same name)⟩
    | getInfoAndFlush => exact ⟨flushed, fun _ => carries_of_clockOf sameFlag (same name)⟩
    | logBundle bundle => exact absurd rfl (single env bundle)
    | logDefinition d =>
      refine ⟨clocked_define onTime d, fun harmless old stored => ?_⟩
      obtain ⟨new, stored', used, flag⟩ := carries_define name d env.now old stored
      exact ⟨new, stored', used, fun same => flag (harmless same)⟩
    | log data => exact ⟨clocked_log onTime data, fun _ => carries_log onTime name sameFlag data⟩
    | _ =>
      refine ⟨clocked_of_definitions ?_ onTime,
        fun _ => carries_of_definitions ?_ (carries_refl _ _ s.worker)⟩
      · rfl
      · rfl

variable (warsaw) in
/-- The step lemma: the clocks stay in order, and a harmless event carries the definition. -/
theorem step_keeps (s : World) (event : Event) (name : String) (sameFlag : Prop) {t : Instant}
    (later : t ≤ (timeOf event).getD t) (clocked : Clocked t s.worker) :
    StepKeeps warsaw name sameFlag ((timeOf event).getD t) s event := by
  by_cases bundled : ∃ env bundle, event = .message env (.logBundle bundle)
  · obtain ⟨env, bundle, rfl⟩ := bundled
    -- each of its messages is handled at the time of the bundle, and none of them is one
    have one (s : World) (event : Event) (part : event ∈ unbundled env bundle)
        (clocked : Clocked env.now s.worker) :
        StepKeeps warsaw name sameFlag env.now s event := by
      have single : timeOf event = some env.now ∧
          ∀ env bundle, event ≠ .message env (.logBundle bundle) := by
        rcases List.mem_append.mp part with h | h <;>
        · obtain ⟨x, -, rfl⟩ := List.mem_map.mp h
          exact ⟨rfl, fun _ _ same => by cases same⟩
      have step := step_single warsaw s event name sameFlag single.2
        (by rw [single.1]; exact Nat.le_refl _) clocked
      rwa [single.1] at step
    have harmless (w : OpLogWorker)
        (h : Harmless name sameFlag s.worker (.message env (.logBundle bundle))) (event : Event)
        (part : event ∈ unbundled env bundle) : Harmless name sameFlag w event := by
      rcases List.mem_append.mp part with defined | logged
      · obtain ⟨d, member, rfl⟩ := List.mem_map.mp defined
        exact fun same registers => h same ⟨d, member, registers⟩
      · obtain ⟨data, -, rfl⟩ := List.mem_map.mp logged
        exact fun _ registers => registers
    unfold StepKeeps
    rw [step_bundle]
    have admitted (s : World) : Machine.Allowed (World.step warsaw)
        (fun _ event => event ∈ unbundled env bundle) s (unbundled env bundle) :=
      Machine.allowed_of_forall s _ fun event part _ => part
    constructor
    · exact Machine.run_state_invariant (fun s => Clocked env.now s.worker)
        (fun s event part clocked => (one s event part clocked).1) s (clocked_mono clocked later) _
        (admitted s)
    · intro h
      exact (Machine.run_state_invariant
        (fun s' => Clocked env.now s'.worker ∧ Carries name sameFlag s.worker s'.worker)
        (fun s' event part kept => ⟨(one s' event part kept.1).1,
          carries_trans kept.2 ((one s' event part kept.1).2 (harmless s'.worker h event part))⟩)
        s ⟨clocked_mono clocked later, carries_refl _ _ _⟩ _ (admitted s)).2
  · exact step_single warsaw s event name sameFlag
      (fun env bundle same => bundled ⟨env, bundle, same⟩) later clocked

theorem timed_le {t t' : Instant} {events : List Event} (timed : Timed t t' events) : t ≤ t' := by
  induction events generalizing t with
  | nil => exact timed
  | cons event events ih => exact Nat.le_trans timed.1 (ih timed.2)

theorem run_clocked {t t' : Instant} (events : List Event) (s : World) (timed : Timed t t' events)
    (clocked : Clocked t s.worker) :
    Clocked t' (Machine.run (World.step warsaw) s events).1.worker := by
  induction events generalizing s t with
  | nil => exact clocked_mono clocked timed
  | cons event events ih =>
    rw [Machine.run_cons]
    exact ih _ timed.2 (step_keeps warsaw s event "" False timed.1 clocked).1

/-- The definition of this name survives every clean-up in the ten minutes from `t` on. -/
def Lasting (name : String) (sameFlag : Prop) (t : Instant) (w : OpLogWorker) : Prop :=
  ∃ d, w.definitions.get? name = some d ∧
    (t ≤ d.lastTimeUse ∨ sameFlag ∧ d.autoRemoveDefinition = false)

variable (warsaw) in
theorem run_lasting {name : String} {sameFlag : Prop} {t u t' : Instant} (between : List Event)
    (s : World) (timed : Timed u t' between) (soon : t' < t + IDLE) (clocked : Clocked u s.worker)
    (unregistered : sameFlag → ∀ event ∈ between, ¬ Registers name event)
    (lasting : Lasting name sameFlag t s.worker) :
    Lasting name sameFlag t (Machine.run (World.step warsaw) s between).1.worker := by
  induction between generalizing s u with
  | nil => exact lasting
  | cons event between ih =>
    obtain ⟨d, stored, kept⟩ := lasting
    have inTime := Nat.lt_of_le_of_lt (timed_le timed.2) soon
    have harmless : Harmless name sameFlag s.worker event := by
      cases event with
      | cleanupTick now deleted completed =>
        intro d' stored'
        rw [stored] at stored'
        cases stored'
        exact kept.imp
          (fun recent => Nat.lt_of_lt_of_le inTime (Nat.add_le_add_right recent _)) And.right
      | writerTick env => exact fun same => unregistered same _ List.mem_cons_self
      | message env msg => exact fun same => unregistered same _ List.mem_cons_self
    obtain ⟨clocked', carries⟩ := step_keeps warsaw s event name sameFlag timed.1 clocked
    obtain ⟨d', stored', later, flag⟩ := carries harmless d stored
    refine ih _ timed.2 clocked'
      (fun same event member => unregistered same event (List.mem_cons_of_mem _ member))
      ⟨d', stored', ?_⟩
    exact kept.imp (fun recent => Nat.le_trans recent later)
      (fun kept => ⟨kept.1, (flag kept.1).trans kept.2⟩)

/-! ## How a definition is forgotten -/

/-- Clean-up removes a definition that wants it, with its clock and its files' run out and
their queues empty. -/
theorem cleanUp_forgets {w : OpLogWorker} {now : Instant} {name : String} {u : Instant}
    (clock : clockOf w name = some (u, true)) (old : u + IDLE ≤ now) (clocked : Clocked now w)
    (written : w.logCount = 0) : (w.cleanUp now).definitions.get? name = none := by
  obtain ⟨d, stored, rfl, auto⟩ := of_clockOf clock
  have idle (t : Instant) (used : t ≤ d.lastTimeUse) : ¬ Instant.elapsed t now < IDLE := by
    rw [elapsed_lt_idle, Nat.not_lt]
    exact Nat.le_trans (Nat.add_le_add_right used _) old
  have files : (d.files.retain fun _ f => f.inUse now).entries = [] := by
    apply List.eq_nil_iff_forall_not_mem.mpr
    rintro ⟨key, f⟩ member
    obtain ⟨listed, used⟩ := List.mem_filter.mp member
    have live : w.file? name key = some f :=
      (OpLogWorker.file?_of_definition key stored).trans ((d.files.get?_eq_some key f).mpr listed)
    have empty := (w.logCount_eq_zero.mp written) name key f live
    simp [LogFile.inUse, empty, idle f.lastTimeUse (clocked.files name key d f stored live)] at used
  rw [OpLogWorker.get?_cleanUp, stored, Option.map_some, Option.filter_some, if_neg]
  simp [LogDefinition.inUse, files, auto, idle d.lastTimeUse (Nat.le_refl _)]

/-- A flush in which everything succeeds, with time enough. -/
def drainEnv (t : Instant) (room : Nat) : MessageEnv where
  now := t
  flush.pass _ := passEnv { storedEnv allDone with deflater := Format.plainDeflater }
  flush.deadline := room

/-- A flush and then a clean-up. -/
def forgetting (s : World) (t now : Instant) : List Event :=
  [.message (drainEnv t s.worker.logCount) .flush, .cleanupTick now (fun _ => false) true]

theorem forgetting_forgets {s : World} {t u now : Instant} {name : String}
    (clocked : Clocked t s.worker) (clock : clockOf s.worker name = some (u, true)) (later : t ≤ now)
    (old : u + IDLE ≤ now) :
    (Machine.run (World.step warsaw) s (forgetting s t now)).1.worker.definitions.get? name = none := by
  obtain ⟨flushed, same⟩ := flushLoop_keeps warsaw clocked
    (drainEnv t s.worker.logCount).flush.pass s.worker.logCount 0 s.disk
  have written := flush_empties warsaw s.worker (drainEnv t s.worker.logCount).flush s.disk
    (fun _ _ _ => ⟨rfl, rfl⟩) (Nat.le_refl _)
  exact cleanUp_forgets ((same name).trans clock) old (clocked_mono flushed later) written

/-! ## Entries -/

variable (warsaw) in
/-- Handling the entry puts it into the queue of a file. -/
def Queued (s : World) (env : MessageEnv) (data : OpLogData) : Prop :=
  ∃ r f, s.worker.routeOf warsaw data = some r ∧
    (s.step warsaw (.message env (.log data))).1.worker.file? data.logName r.key = some f ∧
    f.logs.getLast? = some r.entry

theorem queued_iff (s : World) (env : MessageEnv) (data : OpLogData) :
    Queued warsaw s env data ↔ s.worker.definitions.get? data.logName ≠ none := by
  constructor
  · intro queued none
    obtain ⟨r, f, routed, -⟩ := queued
    unfold OpLogWorker.routeOf at routed
    rw [none] at routed
    cases routed
  · intro known
    obtain ⟨d, stored⟩ := Option.ne_none_iff_exists'.mp known
    have routed : s.worker.routeOf warsaw data =
        some (d.route data.logName (warsaw data.date) data.log) := by
      unfold OpLogWorker.routeOf
      rw [stored, Option.map_some]
    obtain ⟨d', file⟩ := OpLogWorker.file?_log warsaw env.now routed data.logName _
    rw [if_pos ⟨rfl, rfl⟩] at file
    exact ⟨_, _, routed, file, LogFile.addToLog_last _ _ env.now⟩

variable (warsaw) in
/-- Every entry for `name` that is handled before `t + IDLE` is queued, whatever allowed
events are handled in between. -/
def Usable (allowed : Event → Prop) (s : World) (name : String) (t : Instant) : Prop :=
  ∀ between env data, Timed t env.now between → env.now < t + IDLE → (∀ event ∈ between, allowed event) →
    data.logName = name → Queued warsaw (Machine.run (World.step warsaw) s between).1 env data

theorem usable_step {allowed : Event → Prop} {s : World} {name : String} {env : MessageEnv}
    (msg : OpLogMessage) (usable : Usable warsaw allowed s name env.now)
    (admitted : allowed (.message env msg)) :
    Usable warsaw allowed (s.step warsaw (.message env msg)).1 name env.now := by
  intro between env' data timed soon admitted' named
  refine usable (.message env msg :: between) env' data ⟨Nat.le_refl _, timed⟩ soon ?_ named
  intro event member
  rcases List.mem_cons.mp member with rfl | later
  · exact admitted
  · exact admitted' event later

/-- A definition that wants removal is usable only if its clock shows the present. -/
theorem clock_of_usable {allowed : Event → Prop} {s : World} {name : String} {t u : Instant}
    (clocked : Clocked t s.worker) (clock : clockOf s.worker name = some (u, true))
    (admitted : ∀ now, ∀ event ∈ forgetting s t now, allowed event)
    (usable : Usable warsaw allowed s name t) : u = t := by
  obtain ⟨d, stored, rfl, -⟩ := of_clockOf clock
  by_contra stale
  have before : d.lastTimeUse < t := Nat.lt_of_le_of_ne (clocked.definitions name d stored) stale
  have queued := usable (forgetting s t (max t (d.lastTimeUse + IDLE)))
    (drainEnv (max t (d.lastTimeUse + IDLE)) 0) ⟨name, "", 0⟩
    ⟨Nat.le_refl _, Nat.le_max_left _ _, Nat.le_refl _⟩
    (Nat.max_lt.mpr ⟨Nat.lt_add_of_pos_right (by decide), Nat.add_lt_add_right before _⟩)
    (admitted _) rfl
  exact (queued_iff _ _ _).mp queued
    (forgetting_forgets clocked clock (Nat.le_max_left _ _) (Nat.le_max_right _ _))

/-- What is lasting is usable while nothing undoes that. -/
theorem usable_of_lasting {allowed : Event → Prop} {s : World} {name : String} {sameFlag : Prop}
    {t : Instant} (clocked : Clocked t s.worker) (lasting : Lasting name sameFlag t s.worker)
    (unregistered : ∀ event, allowed event → sameFlag → ¬ Registers name event) :
    Usable warsaw allowed s name t := by
  intro between env data timed soon admitted named
  subst named
  obtain ⟨d, stored, -⟩ := run_lasting warsaw between s timed soon clocked
    (fun same event member => unregistered event (admitted event member) same) lasting
  rw [queued_iff, stored]
  exact Option.some_ne_none d

theorem clockOf_define (w : OpLogWorker) (d : OpLogDefinition) (now : Instant) :
    clockOf (w.define d now) d.logName =
      some ((w.definitions.get? d.logName).elim now (·.lastTimeUse), d.autoRemoveDefinition) := by
  obtain ⟨stored, auto, used, get⟩ := w.get?_define d now d.logName
  unfold clockOf
  rw [get, if_pos rfl, Option.map_some, auto, used]

end Steps

/-- A definition of any flag, handled in any state reached from a new worker. Whatever comes
next, its entries of the next ten minutes are queued exactly if the definition was new or
its clock showed the present; unless it is registered once more, also if it is not to be
removed. -/
theorem registered_is_usable_iff (warsaw : DateTimeUtc → LocalDateTime) (disk : Disk) (events : List Event)
    (env : MessageEnv) (d : OpLogDefinition) (timed : Timed 0 env.now events) :
    let s := (Machine.run (World.step warsaw) ⟨.new, disk⟩ events).1
    let registered := (s.step warsaw (.message env (.logDefinition d))).1
    let fresh := ∀ old, s.worker.definitions.get? d.logName = some old → old.lastTimeUse = env.now
    (Usable warsaw (fun _ => True) registered d.logName env.now ↔ fresh) ∧
      (Usable warsaw (fun event => ¬ Registers d.logName event) registered d.logName env.now ↔
        d.autoRemoveDefinition = false ∨ fresh) := by
  intro s registered fresh
  have start : Clocked 0 OpLogWorker.new :=
    ⟨fun _ _ h => (by cases h), fun _ _ _ _ h => (by cases h)⟩
  have clocked : Clocked env.now s.worker := run_clocked events ⟨.new, disk⟩ timed start
  have clocked' : Clocked env.now registered.worker := clocked_define clocked d
  have clock : clockOf registered.worker d.logName = _ := clockOf_define s.worker d env.now
  have fresh_iff : fresh ↔
      (s.worker.definitions.get? d.logName).elim env.now (·.lastTimeUse) = env.now := by
    cases h : s.worker.definitions.get? d.logName <;> simp [fresh, h]
  have lasting (isFresh : fresh) (sameFlag : Prop) :
      Lasting d.logName sameFlag env.now registered.worker := by
    obtain ⟨stored, get, used, -⟩ := of_clockOf clock
    exact ⟨stored, get, Or.inl (Nat.le_of_eq (used.trans (fresh_iff.mp isFresh)).symm)⟩
  constructor
  · constructor
    · intro usable
      -- registering it once more can ask for its removal
      let again : OpLogDefinition := { d with autoRemoveDefinition := true }
      have usable' := usable_step (.logDefinition again) usable trivial
      obtain ⟨stored, get, used, -⟩ := of_clockOf clock
      have clock' := clockOf_define registered.worker again env.now
      rw [get, Option.elim_some, used] at clock'
      exact fresh_iff.mpr
        (clock_of_usable (clocked_define clocked' again) clock' (fun _ _ _ => trivial) usable')
    · exact fun isFresh => usable_of_lasting clocked' (lasting isFresh False) fun _ _ no => no.elim
  · constructor
    · intro usable
      cases auto : d.autoRemoveDefinition with
      | false => exact Or.inl rfl
      | true =>
        rw [auto] at clock
        refine Or.inr (fresh_iff.mpr (clock_of_usable clocked' clock ?_ usable))
        intro now event member
        unfold forgetting at member
        simp only [List.mem_cons, List.not_mem_nil, or_false] at member
        rcases member with rfl | rfl <;> exact id
    · intro either
      rcases either with kept | isFresh
      · obtain ⟨stored, get, -, flag⟩ := of_clockOf clock
        exact usable_of_lasting clocked' ⟨stored, get, Or.inr ⟨trivial, flag.trans kept⟩⟩
          fun _ no _ => no
      · exact usable_of_lasting clocked' (lasting isFresh False) fun _ _ no => no.elim

def removable : OpLogDefinition := ⟨"a", .noSplit, "", "logs", [], Duration.fromSecs 1, true⟩

/-- A new name, handled by a new worker. -/
theorem registered_is_usable_iff_new :
    Usable warsawAtEpoch (fun _ => True)
      (World.step warsawAtEpoch ⟨.new, fun _ => none⟩ (.message (drainEnv 0 0) (.logDefinition removable))).1
      "a" 0 :=
  (registered_is_usable_iff warsawAtEpoch (fun _ => none) [] (drainEnv 0 0) removable (Nat.le_refl 0)).1.mpr
    fun _ h => (by cases h)

def elevenMinutes : Instant := Duration.fromSecs (11 * 60)

/-- Registered at zero and again eleven minutes later, with nothing in between. -/
def registeredTwice : List Event :=
  [.message (drainEnv 0 0) (.logDefinition removable),
    .message (drainEnv elevenMinutes 0) (.logDefinition removable)]

/-- The clean-up that runs right after the second time takes the definition away, and the
entry handled at the same instant is discarded. -/
theorem reregistered_is_forgotten :
    Timed 0 elevenMinutes registeredTwice ∧
      ¬ Usable warsawAtEpoch (fun _ => True)
        (Machine.run (World.step warsawAtEpoch) ⟨.new, fun _ => none⟩ registeredTwice).1 "a" elevenMinutes := by
  refine ⟨⟨Nat.le_refl 0, by decide, Nat.le_refl _⟩, fun usable => ?_⟩
  have queued := usable [.cleanupTick elevenMinutes (fun _ => false) true] (drainEnv elevenMinutes 0)
    ⟨"a", "entry", 0⟩ ⟨Nat.le_refl _, Nat.le_refl _⟩ (by decide) (fun _ _ => trivial) rfl
  rw [queued_iff] at queued
  exact queued (Option.isNone_iff_eq_none.mp (by decide +kernel))

end OpLog.Guarantees.Registration
