import OpLog.Guarantees.Intake
import OpLog.Guarantees.Routing
import OpLog.Source.FileOps

/-!
# How long an entry waits for its attempt

A file with entries is attempted by the first pass its interval has gone by at, and passes come
a writer's period apart. So in the clocked loop an attempt on the file has been made as soon as
the loop is polled an interval and a period after the first of its entries was queued.
-/
namespace OpLog.Guarantees.Latency
open Library Source Intake Routing

/-! ## One file -/

/-- An attempt that was due: it failed, or wrote a frame with the oldest entries. -/
def Tried (a : Attempt) : Prop :=
  (∃ error, a.result = .error error) ∨ ∃ w, a.result = .ok (some w) ∧ w.entries ≠ []

/-- The file has entries, the first of which has waited for the interval when it is `since`. -/
def Waits (interval : Duration) (since : Instant) (live : Option LogFile) : Prop :=
  ∃ f, live = some f ∧ f.logs ≠ [] ∧
    ∃ t, f.timeOfFirstAdditionOfLogAfterWrite = some t ∧ t + interval ≤ since

section File
variable (warsaw : DateTimeUtc → LocalDateTime) {interval : Duration} {since : Instant}

theorem due_of_waits {f : LogFile} (waits : Waits interval since (some f)) {flushInterval : Duration}
    (brief : flushInterval ≤ interval) {now : Instant} (later : since ≤ now) :
    f.due flushInterval now := by
  obtain ⟨f, same, queued, t, first, waited⟩ := waits
  cases same
  refine ⟨queued, ?_⟩
  unfold LogFile.early
  rw [first]
  apply decide_eq_false
  have passed : t + flushInterval ≤ now :=
    Nat.le_trans (Nat.add_le_add_left brief t) (Nat.le_trans waited later)
  exact Nat.not_lt.mpr (Nat.le_sub_of_add_le' passed)

/-- An attempt is made, or the file goes on waiting. -/
theorem writeOne_tried (d : LogDefinition) (flushInterval : Duration) (env : AttemptEnv) {f : LogFile}
    (content : Option Bytes) (waits : Waits interval since (some f)) :
    let out := d.writeOne warsaw flushInterval env f content
    Tried out.2 ∨ ¬ f.due flushInterval env.now ∧ Waits interval since (some out.1) := by
  intro out
  obtain ⟨f, same, queued, t, first, waited⟩ := waits
  cases same
  rcases writeOne_outcome warsaw d flushInterval env f content with
    ⟨idle, skipped⟩ | ⟨ops, e, due, failed⟩ | ⟨ops, has, frame, due, encoded, written⟩
  · rw [show out = _ from skipped, LogFile.afterSkip_eq]
    have some_left : ¬ f.logs.isEmpty = true := by simpa using queued
    exact Or.inr ⟨idle, _, rfl, queued, t, by rw [if_neg some_left]; exact first, waited⟩
  · rw [show out = _ from failed]
    exact Or.inl (Or.inl ⟨e, rfl⟩)
  · rw [show out = _ from written]
    refine Or.inl (Or.inr ⟨_, rfl, ?_⟩)
    have consumed := (encodeFrame_spec encoded).2.1 queued
    intro none_taken
    rcases List.take_eq_nil_iff.mp none_taken with none | empty
    · exact absurd none (Nat.ne_of_gt consumed)
    · exact queued empty

/-- No operation forgets a file that waits, or makes it wait anew. -/
theorem op_waits (live : Option LogFile) (op : FileOp) (waits : Waits interval since live) :
    (∃ a ∈ (op.step warsaw live).2, Tried a) ∨ Waits interval since (op.step warsaw live).1 := by
  obtain ⟨f, rfl, queued, t, first, waited⟩ := waits
  cases op with
  | queue d r now =>
    refine Or.inr ⟨_, rfl, LogFile.addToLog_ne_nil _ _ _, t, ?_, waited⟩
    rw [LogDefinition.getLogFile_some]
    unfold LogFile.addToLog
    dsimp only
    rw [first]
    rfl
  | attempt d flushInterval env content =>
    rcases writeOne_tried warsaw d flushInterval env content ⟨f, rfl, queued, t, first, waited⟩ with
      tried | ⟨-, waits⟩
    · exact Or.inl ⟨_, List.mem_singleton_self _, tried⟩
    · exact Or.inr waits
  | cleanUp now =>
    have kept : (some f).filter (·.inUse now) = some f :=
      Option.filter_eq_some_iff.mpr ⟨rfl, LogFile.inUse_of_queued queued now⟩
    exact Or.inr ⟨f, kept, queued, t, first, waited⟩

theorem ops_wait (live : Option LogFile) (ops : List FileOp) (waits : Waits interval since live) :
    let final := Machine.run (FileOp.step warsaw) live ops
    (∃ a ∈ final.2, Tried a) ∨ Waits interval since final.1 := by
  refine Machine.run_invariant_always
    (fun live past => (∃ a ∈ past, Tried a) ∨ Waits interval since live) ?_ live [] (Or.inr waits) ops
  intro live op past before
  rcases before with ⟨a, member, tried⟩ | waits
  · exact Or.inl ⟨a, List.mem_append_left _ member, tried⟩
  · refine (op_waits warsaw live op waits).imp_left ?_
    intro new
    obtain ⟨a, member, tried⟩ := new
    exact ⟨a, List.mem_append_right _ member, tried⟩

end File

/-! ## The worker -/

section Worker
variable (warsaw : DateTimeUtc → LocalDateTime) (name key : String) {interval : Duration}
  {since : Instant}

/-- The worker's definition of the name, if it has one, has an interval no longer than this. -/
def Brief (interval : Duration) (w : OpLogWorker) : Prop :=
  ∀ held, bareOf w name = some held → held.flushInterval ≤ interval

/-- The message brings no longer interval for the name. -/
def KeepsBrief (interval : Duration) : OpLogMessage → Prop
  | .logDefinition d => d.logName = name → d.flushInterval ≤ interval
  | .logBundle bundle => ∀ d ∈ bundle.definitions, d.logName = name → d.flushInterval ≤ interval
  | _ => True

variable {name key}

theorem brief_define {w : OpLogWorker} (brief : Brief name interval w) (d : OpLogDefinition)
    (now : Instant) (short : d.logName = name → d.flushInterval ≤ interval) :
    Brief name interval (w.define d now) := by
  intro held registered
  rw [bareOf_define] at registered
  split at registered
  · rename_i same
    cases registered
    exact short same.symm
  · exact brief held registered

theorem brief_define_all (definitions : List OpLogDefinition) (now : Instant) {w : OpLogWorker}
    (brief : Brief name interval w)
    (short : ∀ d ∈ definitions, d.logName = name → d.flushInterval ≤ interval) :
    Brief name interval (definitions.foldl (fun w d => w.define d now) w) := by
  induction definitions generalizing w with
  | nil => exact brief
  | cons d definitions ih =>
    exact ih (brief_define brief d now (short d List.mem_cons_self))
      fun d' member => short d' (List.mem_cons_of_mem d member)

theorem brief_logs (logs : List OpLogData) (now : Instant) {w : OpLogWorker}
    (brief : Brief name interval w) : Brief name interval (w.processLogs warsaw now logs).1 := by
  induction logs generalizing w with
  | nil => exact brief
  | cons data logs ih =>
    refine ih (w := (w.processLog warsaw data now).1) ?_
    intro held registered
    exact brief held ((bareOf_log warsaw w data now name).symm.trans registered)

theorem step_brief (s : World) (e : Event) (brief : Brief name interval s.worker)
    (short : ∀ env msg, e = .message env msg → KeepsBrief name interval msg) :
    Brief name interval (s.step warsaw e).1.worker := by
  cases e with
  | writerTick env =>
    intro held registered
    rw [World.step, OpLogWorker.writeToFiles, bareOf_writePass] at registered
    exact brief held registered
  | cleanupTick now deleted completed =>
    obtain ⟨timedOut, noted⟩ := (s.worker.cleanUp now).noteCleanupOutcome_eq completed
    intro held registered
    rw [World.step, World.cleanup, noted] at registered
    rcases bareOf_cleanUp s.worker now name with same | ⟨gone, -⟩
    · exact brief held (same.symm.trans registered)
    · exact absurd (gone.symm.trans registered) (by simp)
  | message env msg =>
    have short := short env msg rfl
    cases msg with
    | flush =>
      intro held registered
      rw [World.step, World.onMessage, bareOf_flush] at registered
      exact brief held registered
    | getInfoAndFlush =>
      intro held registered
      simp only [World.step, World.onMessage, bareOf_flush] at registered
      exact brief held registered
    | logBundle bundle =>
      exact brief_logs warsaw bundle.logs env.now
        (brief_define_all bundle.definitions env.now brief short)
    | logDefinition d => exact brief_define brief d env.now short
    | log data => exact brief_logs warsaw [data] env.now brief
    | _ => exact brief

variable (name key) in
/-- A step of the worker attempts a file that waits, or leaves it waiting. -/
theorem step_waits (s : World) (e : Event) (waits : Waits interval since (s.worker.file? name key)) :
    (∃ a ∈ attemptsOn name key (s.step warsaw e).2, Tried a) ∨
      Waits interval since ((s.step warsaw e).1.worker.file? name key) := by
  have ops := ops_wait warsaw _ (s.opsOn warsaw name key e) waits
  rw [World.run_opsOn] at ops
  exact ops

/-- A pass that comes when the file has waited attempts it. -/
theorem pass_tries (s : World) (env : PassEnv) (waits : Waits interval since (s.worker.file? name key))
    (brief : Brief name interval s.worker) (later : since ≤ (env.attempt name key).now) :
    ∃ a ∈ attemptsOn name key (s.step warsaw (.writerTick env)).2, Tried a := by
  have ops : Machine.run (FileOp.step warsaw) (s.worker.file? name key)
      (s.opsOn warsaw name key (.writerTick env)) = _ := World.run_opsOn s (.writerTick env)
  cases stored : s.worker.definitions.get? name with
  | none =>
    obtain ⟨f, live, -⟩ := waits
    rw [OpLogWorker.file?, stored] at live
    cases live
  | some d =>
    have attempt : s.opsOn warsaw name key (.writerTick env) = [.attempt d d.flushInterval
        (env.attempt name key) (s.worker.contentAt warsaw (·.flushInterval) env s.disk name key)] := by
      simp only [World.opsOn, OpLogWorker.passOps, stored]
    obtain ⟨f, live, queued⟩ := waits
    rw [attempt, live] at ops
    have made : [(d.writeOne warsaw d.flushInterval (env.attempt name key) f (s.worker.contentAt warsaw
        (·.flushInterval) env s.disk name key)).2] =
          attemptsOn name key (s.step warsaw (.writerTick env)).2 := congrArg Prod.snd ops
    have short : d.flushInterval ≤ interval := brief (bare d) (by rw [bareOf, stored]; rfl)
    have due := due_of_waits ⟨f, rfl, queued⟩ short later
    rcases writeOne_tried warsaw d d.flushInterval (env.attempt name key)
      (s.worker.contentAt warsaw (·.flushInterval) env s.disk name key) ⟨f, rfl, queued⟩ with
      tried | ⟨early, -⟩
    · exact ⟨_, by rw [← made]; exact List.mem_singleton_self _, tried⟩
    · exact absurd due early

end Worker

/-! ## The loop -/

section Loop
variable (warsaw : DateTimeUtc → LocalDateTime) {slack : Nat} (writer : Ticker WRITER_PERIOD slack)
  (cleanup : Ticker CLEANUP_PERIOD slack) {name key : String} {interval : Duration}
  {since limit : Instant}

/-- The file waits, and the next pass is due by the limit. -/
structure Pending (name key : String) (interval : Duration) (since limit : Instant) (s : RunLoop) :
    Prop where
  waits : Waits interval since (s.system.shared.world.worker.file? name key)
  brief : Brief name interval s.system.shared.world.worker
  due : s.writerDue ≤ limit

/-- One of the attempts on the file was due. -/
def TriedOn (name key : String) (history : List LoopOutput) : Prop :=
  ∃ a ∈ attemptsOn name key (outs history), Tried a

theorem triedOn_append {past more : List LoopOutput} :
    TriedOn name key (past ++ more) ↔ TriedOn name key past ∨ TriedOn name key more := by
  unfold TriedOn outs
  rw [List.filterMap_append, attemptsOn_append]
  simp only [List.mem_append, or_and_right, exists_or]

theorem triedOn_ran {branch : Branch} {output : List Output}
    (tried : ∃ a ∈ attemptsOn name key output, Tried a) :
    TriedOn name key (.ran branch :: output.map .out) := by
  unfold TriedOn
  rw [show outs (.ran branch :: output.map .out) = outs (output.map .out) from rfl, outs_out]
  exact tried

/-- A round that comes by the limit or later attempts the file. -/
theorem round_tries {s : RunLoop} {env : RoundEnv}
    (running : Running (s.step warsaw writer cleanup (.round env)).1)
    (pending : Pending name key interval since limit s) (soon : since ≤ limit)
    (clock : env.now ≤ (env.pass.attempt name key).now) (late : limit ≤ env.now) :
    TriedOn name key (s.step warsaw writer cleanup (.round env)).2 := by
  obtain ⟨-, taken⟩ := step_effect warsaw writer cleanup running
  have due : s.writerDue ≤ env.now := Nat.le_trans pending.due late
  generalize (s.step warsaw writer cleanup (.round env)).1 = s',
    (s.step warsaw writer cleanup (.round env)).2 = out at taken
  cases taken with
  | outside event notRound => exact absurd rfl (notRound env)
  | idle env nothing =>
    have selected : s.select env.now = some .writerTick := if_pos due
    rw [selected] at nothing
    cases nothing
  | writerTick env due s' queue writerDue cleanupDue lastRound output ran =>
    have tried := pass_tries warsaw s.system.shared.world env.pass pending.waits pending.brief
      (Nat.le_trans soon (Nat.le_trans late clock))
    rw [ran] at tried
    exact triedOn_ran tried
  | cleanupTick env notDue => exact absurd due (Nat.not_le_of_lt notDue)
  | recv env msg going notDue => exact absurd due (Nat.not_le_of_lt notDue.1)

/-- Any step of a running loop attempts the file, or leaves it waiting for a pass that is due by the
limit. -/
theorem step_pending {s : RunLoop} {event : LoopEvent}
    (running : Running (s.step warsaw writer cleanup event).1)
    (pending : Pending name key interval since limit s) (soon : since + WRITER_PERIOD ≤ limit)
    (clock : ∀ env, event = .round env → env.now ≤ (env.pass.attempt name key).now)
    (short : ∀ msg ∈ received (s.step warsaw writer cleanup event).2, KeepsBrief name interval msg) :
    TriedOn name key (s.step warsaw writer cleanup event).2 ∨
      Pending name key interval since limit (s.step warsaw writer cleanup event).1 := by
  obtain ⟨-, taken⟩ := step_effect warsaw writer cleanup running
  obtain ⟨waits, brief, due⟩ := pending
  generalize (s.step warsaw writer cleanup event).1 = s',
    (s.step warsaw writer cleanup event).2 = out at taken short
  cases taken with
  | outside event notRound s' more queue world clocks =>
    right
    rw [← clocks.1] at due
    rw [← world] at waits brief
    exact ⟨waits, brief, due⟩
  | idle env nothing => exact Or.inr ⟨waits, brief, due⟩
  | writerTick env isDue s' queue writerDue cleanupDue lastRound output ran =>
    by_cases later : since ≤ env.now
    · have tried := pass_tries warsaw s.system.shared.world env.pass waits brief
        (Nat.le_trans later (clock env rfl))
      rw [ran] at tried
      exact Or.inl (triedOn_ran tried)
    · have step := step_waits warsaw name key s.system.shared.world (.writerTick env.pass) waits
      have brief := step_brief warsaw s.system.shared.world (.writerTick env.pass) brief
        fun _ _ none => by cases none
      rw [ran] at step brief
      refine step.imp triedOn_ran fun waits => ⟨waits, brief, ?_⟩
      -- the pass came too early, and the next one comes a period later
      have next := writer.late s.writerDue env.now isDue
      rw [writerDue]
      exact Nat.le_trans next
        (Nat.le_trans (Nat.add_le_add_right (Nat.le_of_not_le later) WRITER_PERIOD) soon)
  | cleanupTick env notDue isDue s' queue writerDue cleanupDue lastRound output ran =>
    have step := step_waits warsaw name key s.system.shared.world
      (.cleanupTick env.now env.deleted env.completed) waits
    have brief := step_brief warsaw s.system.shared.world
      (.cleanupTick env.now env.deleted env.completed) brief fun _ _ none => by cases none
    rw [ran] at step brief
    exact step.imp triedOn_ran fun waits => ⟨waits, brief, writerDue ▸ due⟩
  | recv env msg going notDue s' queue writerDue cleanupDue lastRound output ran =>
    have step := step_waits warsaw name key s.system.shared.world (.message env.message msg) waits
    have brief := step_brief warsaw s.system.shared.world (.message env.message msg) brief (by
      intro _ _ same
      cases same
      exact short msg List.mem_cons_self)
    rw [ran] at step brief
    exact step.imp triedOn_ran fun waits => ⟨waits, brief, writerDue ▸ due⟩

/-- A loop that runs was never left. -/
theorem running_before {s : RunLoop} {events : List LoopEvent}
    (running : Running (Machine.run (RunLoop.step warsaw writer cleanup) s events).1) : Running s := by
  by_contra stopped
  exact Machine.run_invariant_always (fun s _ => ¬ Running s)
    (fun _ event _ stopped => step_stopped warsaw writer cleanup event stopped) s [] stopped events running

/-- The same of a run that leaves the loop running. -/
theorem run_pending {s : RunLoop} {events : List LoopEvent}
    (running : Running (Machine.run (RunLoop.step warsaw writer cleanup) s events).1)
    (pending : Pending name key interval since limit s) (soon : since + WRITER_PERIOD ≤ limit)
    (clock : ∀ env, .round env ∈ events → env.now ≤ (env.pass.attempt name key).now)
    (short : ∀ msg ∈ received (Machine.run (RunLoop.step warsaw writer cleanup) s events).2,
      KeepsBrief name interval msg) :
    TriedOn name key (Machine.run (RunLoop.step warsaw writer cleanup) s events).2 ∨
      Pending name key interval since limit (Machine.run (RunLoop.step warsaw writer cleanup) s events).1 := by
  induction events generalizing s with
  | nil => exact Or.inr pending
  | cons event events ih =>
    rw [Machine.run_cons] at running short ⊢
    dsimp only at running short ⊢
    rw [received_append] at short
    have going := running_before warsaw writer cleanup running
    rw [triedOn_append, or_assoc]
    rcases step_pending warsaw writer cleanup going pending soon
      (fun env same => clock env (by rw [same]; exact List.mem_cons_self))
      (fun msg member => short msg (List.mem_append_left _ member)) with tried | pending
    · exact Or.inl tried
    · exact Or.inr (ih running pending (fun env member => clock env (List.mem_cons_of_mem _ member))
        fun msg member => short msg (List.mem_append_right _ member))

/-- A pass is due a period after the last round at the latest. -/
theorem step_writerDue {s : RunLoop} {event : LoopEvent} {moment : Instant}
    (due : s.writerDue ≤ moment + WRITER_PERIOD)
    (time : ∀ env, event = .round env → env.now ≤ moment) :
    (s.step warsaw writer cleanup event).1.writerDue ≤ moment + WRITER_PERIOD := by
  cases event with
  | round env =>
    by_cases running : Running s
    · cases selected : s.select env.now with
      | none =>
        rw [step_idle warsaw writer cleanup running selected]
        exact due
      | some branch =>
        rw [step_ran warsaw writer cleanup running selected]
        unfold RunLoop.ran
        dsimp only
        split
        · rename_i pass
          subst pass
          have ready : s.writerDue ≤ env.now := by
            by_contra early
            unfold RunLoop.select at selected
            rw [if_neg early] at selected
            split at selected
            · cases selected
            · obtain ⟨_, -, none⟩ := Option.map_eq_some_iff.mp selected
              cases none
          exact Nat.le_trans (writer.late _ _ ready) (Nat.add_le_add_right (time env rfl) WRITER_PERIOD)
        · exact due
    · rw [step_over warsaw writer cleanup running]
      exact due
  | _ => exact due

theorem run_writerDue {s : RunLoop} {events : List LoopEvent} {moment : Instant}
    (due : s.writerDue ≤ moment + WRITER_PERIOD)
    (times : ∀ env, .round env ∈ events → env.now ≤ moment) :
    (Machine.run (RunLoop.step warsaw writer cleanup) s events).1.writerDue ≤ moment + WRITER_PERIOD := by
  have timely : Machine.Allowed (RunLoop.step warsaw writer cleanup)
      (fun _ event => ∀ env, event = .round env → env.now ≤ moment) s events :=
    Machine.allowed_of_forall s events fun event member _ env same => times env (same ▸ member)
  exact Machine.run_invariant (fun s _ => s.writerDue ≤ moment + WRITER_PERIOD)
    (fun s event past time due => step_writerDue warsaw writer cleanup due time) s [] due events timely

/-- A file whose oldest addition came by some moment has been attempted, with an attempt that failed
or wrote entries, once the loop is polled an interval and a writer's period after that moment:
whatever messages, rounds and outcomes come before and in between, if no longer interval is
registered for the name meanwhile, the loop is not left, and no clock is behind the one that the
round was polled at. -/
theorem files_are_tried_in_time (name key : String) (interval : Duration) (disk : Disk) (n : Nat)
    (begun moment : Instant) (before after : List LoopEvent) (env : RoundEnv) (started : begun ≤ moment)
    (times : ∀ e, .round e ∈ before → e.now ≤ moment)
    (clock : ∀ e, .round e ∈ after ++ [.round env] → e.now ≤ (e.pass.attempt name key).now)
    (late : moment + interval + WRITER_PERIOD ≤ env.now) :
    let s := (Machine.run (RunLoop.step warsaw writer cleanup) (.start disk n begun) before).1
    let ended := Machine.run (RunLoop.step warsaw writer cleanup) s (after ++ [.round env])
    Waits interval (moment + interval) (s.system.shared.world.worker.file? name key) →
    Brief name interval s.system.shared.world.worker →
    Running (Machine.run (RunLoop.step warsaw writer cleanup) s after).1 →
    (∀ msg ∈ received ended.2, KeepsBrief name interval msg) →
      ∃ a ∈ attemptsOn name key (outs ended.2), Tried a := by
  intro s ended waits brief running short
  have ends : ended = _ := Machine.run_append s after [.round env]
  have soon : moment + interval + WRITER_PERIOD ≤ moment + interval + WRITER_PERIOD := Nat.le_refl _
  have due : s.writerDue ≤ moment + interval + WRITER_PERIOD := by
    have by_moment : s.writerDue ≤ moment + WRITER_PERIOD := run_writerDue warsaw writer cleanup
      (Nat.le_trans started (Nat.le_add_right moment WRITER_PERIOD)) times
    exact Nat.le_trans by_moment
      (Nat.add_le_add_right (Nat.le_add_right moment interval) WRITER_PERIOD)
  change TriedOn name key ended.2
  rw [ends] at short ⊢
  rw [received_append] at short
  rw [triedOn_append]
  rcases run_pending warsaw writer cleanup running ⟨waits, brief, due⟩ soon
    (fun e member => clock e (List.mem_append_left _ member))
    (fun msg member => short msg (List.mem_append_left _ member)) with tried | pending
  · exact Or.inl tried
  · right
    rw [Machine.run_cons, Machine.run_nil, List.append_nil]
    have ready := Nat.le_trans pending.due late
    refine round_tries warsaw writer cleanup
      (stays_running warsaw writer cleanup running fun e same => ?_) pending
      (Nat.le_add_right (moment + interval) WRITER_PERIOD) (clock env (by simp)) late
    cases same
    exact ready

end Loop

/-- A poll at that time. -/
def polledAt (millis : Nat) : RoundEnv where
  now := Duration.fromMillis millis
  pass := passEnv { storedEnv allDone with now := Duration.fromMillis millis }
  deleted _ := false
  completed := true
  message := ⟨Duration.fromMillis millis, flushEnv⟩

/-- A definition with an interval of a second, and an entry, behind the first two ticks. -/
def queuedAtOnce : List LoopEvent :=
  [.other (.logDefinition ⟨"app", .noSplit, "", "logs", [], Duration.fromSecs 1, false⟩),
    .other (.log ⟨"app", "one", 0⟩)] ++ List.replicate 4 (.round (polledAt 0))

/-- The pass at half a second is too early, the one at one and a half comes by then. -/
theorem files_are_tried_in_time_one :
    let s := (Machine.run (RunLoop.step warsawAtEpoch (delayed _) (delayed _))
      (.start (fun _ => none) 1 0) queuedAtOnce).1
    let ended := Machine.run (RunLoop.step warsawAtEpoch (delayed _) (delayed _)) s
      ([.round (polledAt 500)] ++ [.round (polledAt 1500)])
    ∃ a ∈ attemptsOn "app" "logs/app.log" (outs ended.2), Tried a := by
  intro s ended
  have live : (s.system.shared.world.worker.file? "app" "logs/app.log").map
      (fun f => (f.logs.length, f.timeOfFirstAdditionOfLogAfterWrite)) = some (1, some 0) := by
    decide +kernel
  have intervals : (bareOf s.system.shared.world.worker "app").map (·.flushInterval) =
      some (Duration.fromSecs 1) := by decide +kernel
  refine files_are_tried_in_time warsawAtEpoch (delayed _) (delayed _) "app" "logs/app.log"
    (Duration.fromSecs 1) (fun _ => none) 1 0 0 queuedAtOnce [.round (polledAt 500)] (polledAt 1500)
    (Nat.le_refl 0) ?_ ?_ (by decide) ?_ ?_ (by decide +kernel) ?_
  · intro e member
    rcases List.mem_append.mp member with sent | polled
    · simp at sent
    · rw [LoopEvent.round.inj (List.eq_of_mem_replicate polled)]
      decide
  · intro e member
    simp only [List.singleton_append, List.mem_cons, LoopEvent.round.injEq, List.not_mem_nil,
      or_false] at member
    rcases member with rfl | rfl <;> exact Nat.le_refl _
  · obtain ⟨f, same, fields⟩ := Option.map_eq_some_iff.mp live
    obtain ⟨one, time⟩ := Prod.mk.inj fields
    refine ⟨f, same, ?_, 0, time, Nat.le_refl _⟩
    intro none
    rw [none] at one
    cases one
  · intro held registered
    rw [registered] at intervals
    exact Nat.le_of_eq (Option.some.inj intervals)
  · have none : received ended.2 = [] := by decide +kernel
    intro msg member
    exact absurd (none ▸ member) List.not_mem_nil

end OpLog.Guarantees.Latency
