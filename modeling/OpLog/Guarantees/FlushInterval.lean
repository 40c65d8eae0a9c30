import OpLog.Guarantees.OneFile
import OpLog.Source.FileOps

/-!
# No entry waits past its flush interval

`time_of_first_addition_of_log_after_write` is set where an entry is queued and cleared where
the queue gets empty. It is followed along a run next to the queue itself, every entry of
which keeps the time at which it was queued.
-/
namespace OpLog.Guarantees.FlushInterval
open Library Source

/-- A file, the time of the first addition since its queue was last empty, and the queued
entries with the times of their additions. -/
structure Waiting where
  live : Option LogFile
  since : Option Instant
  queued : List (String × Instant)

def queueOf (live : Option LogFile) : List String := live.elim [] (·.logs)

section Warsaw
variable (warsaw : DateTimeUtc → LocalDateTime)

namespace Waiting

/-- Entries come in at the back of the queue and leave it at the front. -/
def step (s : Waiting) (op : FileOp) : Waiting × List Attempt :=
  let out := op.step warsaw s.live
  let queued := match op with
    | .queue _ r now => s.queued ++ [(r.entry, now)]
    | _ => s.queued
  let since := match op with
    | .queue _ _ now => if (queueOf s.live).isEmpty then some now else s.since
    | _ => if (queueOf out.1).isEmpty then none else s.since
  (⟨out.1, since, queued.drop (queued.length - (queueOf out.1).length)⟩, out.2)

def start : Waiting := ⟨none, none, []⟩

end Waiting

/-- The stored time is that of the first addition, there is one exactly if there is an entry,
and no queued entry is older. -/
structure Right (s : Waiting) : Prop where
  entries : s.queued.map Prod.fst = queueOf s.live
  time : ∀ f, s.live = some f → f.timeOfFirstAdditionOfLogAfterWrite = s.since
  pending : s.since.isSome ↔ queueOf s.live ≠ []
  order : ∀ t, s.since = some t → ∀ e ∈ s.queued, t ≤ e.2

/-- The queue is what is left of `queued` without its first `n` entries. -/
theorem right_drop {live : Option LogFile} {since : Option Instant} {queued : List (String × Instant)}
    {n : Nat} (entries : queueOf live = (queued.map Prod.fst).drop n)
    (time : ∀ f, live = some f → f.timeOfFirstAdditionOfLogAfterWrite = since)
    (pending : since.isSome ↔ queueOf live ≠ [])
    (order : ∀ t, since = some t → ∀ e ∈ queued, t ≤ e.2) :
    Right ⟨live, since, queued.drop (queued.length - (queueOf live).length)⟩ := by
  have left : queued.length - (queueOf live).length = min n queued.length := by
    rw [entries, List.length_drop, List.length_map]
    omega
  refine ⟨?_, time, pending, fun t first e member => order t first e (List.mem_of_mem_drop member)⟩
  rw [left, List.map_drop, entries]
  by_cases few : n ≤ queued.length
  · rw [Nat.min_eq_left few]
  · rw [Nat.min_eq_right (by omega), List.drop_eq_nil_of_le (by simp),
      List.drop_eq_nil_of_le (by simp; omega)]

/-! ## Steps -/

theorem getLogFile_time (d : LogDefinition) (live : Option LogFile) (logName path : String)
    (now : Instant) :
    (d.getLogFile live logName path now).logs = queueOf live ∧
      (d.getLogFile live logName path now).timeOfFirstAdditionOfLogAfterWrite =
        live.bind (·.timeOfFirstAdditionOfLogAfterWrite) := by
  cases live with
  | none => exact ⟨rfl, rfl⟩
  | some f =>
    rw [d.getLogFile_some]
    exact ⟨rfl, rfl⟩

/-- What the file keeps of the time, it keeps as long as there is an entry. -/
theorem right_time {s : Waiting} (right : Right s) :
    s.live.bind (·.timeOfFirstAdditionOfLogAfterWrite) =
      if (queueOf s.live).isEmpty then none else s.since := by
  obtain ⟨-, time, pending, -⟩ := right
  cases live : s.live with
  | none => rfl
  | some f =>
    rw [Option.bind_some, time f live]
    rw [live] at pending
    by_cases empty : queueOf (some f) = []
    · rw [if_pos (by rw [empty]; rfl)]
      exact Option.not_isSome_iff_eq_none.mp fun pends => pending.mp pends empty
    · rw [if_neg (by simpa using empty)]

/-- With the new entry there is a time, its own if the queue was empty. -/
theorem right_first {s : Waiting} (right : Right s) (now : Instant) :
    (if (queueOf s.live).isEmpty then some now else s.since) =
      some ((if (queueOf s.live).isEmpty then none else s.since).getD now) := by
  split
  · rfl
  · rename_i some_left
    have pends := right.pending.mpr (by simpa using some_left)
    obtain ⟨t, is_t⟩ := Option.isSome_iff_exists.mp pends
    rw [is_t, Option.getD_some]

/-- No entry is older than that time, nor is the new one. -/
theorem right_order {s : Waiting} (right : Right s) {now : Instant}
    (later : ∀ t, s.since = some t → t ≤ now) (entry : String) (t : Instant)
    (first : (if (queueOf s.live).isEmpty then some now else s.since) = some t) :
    ∀ e ∈ s.queued ++ [(entry, now)], t ≤ e.2 := by
  intro e member
  rcases List.mem_append.mp member with before | last
  · split at first
    · rename_i empty
      have none_before : s.queued = [] := by
        rw [← List.map_eq_nil_iff, right.entries]
        simpa using empty
      rw [none_before] at before
      cases before
    · exact right.order t first e before
  · rw [List.mem_singleton.mp last]
    split at first
    · exact Nat.le_of_eq (Option.some.inj first).symm
    · exact later t first

/-- An addition at a time not before the one that is kept. -/
theorem right_queue {s : Waiting} (right : Right s) (d : LogDefinition) (r : Route) (now : Instant)
    (later : ∀ t, s.since = some t → t ≤ now) : Right (s.step warsaw (.queue d r now)).1 := by
  obtain ⟨logs, first⟩ := getLogFile_time d s.live r.logName r.path now
  obtain ⟨n, bound, rest, -⟩ := (d.getLogFile s.live r.logName r.path now).addToLog_spec r.entry now
  have added := LogFile.addToLog_ne_nil (d.getLogFile s.live r.logName r.path now) r.entry now
  unfold Waiting.step FileOp.step
  dsimp only
  refine right_drop (n := n) ?_ ?_ ?_ (right_order right later r.entry)
  · rw [List.map_append, right.entries, ← logs]
    exact rest
  · intro f same
    cases same
    unfold LogFile.addToLog
    dsimp only
    rw [first, right_time right]
    exact (right_first right now).symm
  · apply iff_of_true _ added
    rw [right_first right now]
    rfl

/-- A step after which the queue is a rest of what it was, and the time is kept with it. -/
theorem right_rest {s : Waiting} (right : Right s) {live : Option LogFile} {n : Nat}
    (rest : queueOf live = (queueOf s.live).drop n)
    (time : ∀ f, live = some f → f.timeOfFirstAdditionOfLogAfterWrite =
      if (queueOf live).isEmpty then none else s.since) :
    Right ⟨live, if (queueOf live).isEmpty then none else s.since,
      s.queued.drop (s.queued.length - (queueOf live).length)⟩ := by
  refine right_drop (n := n) (by rw [right.entries, rest]) time ?_ ?_
  · by_cases empty : queueOf live = []
    · rw [empty]
      simp
    · rw [if_neg (by simpa using empty)]
      refine iff_of_true (right.pending.mpr ?_) empty
      intro none_before
      rw [rest, none_before, List.drop_nil] at empty
      exact empty rfl
  · intro t is_first e member
    split at is_first
    · cases is_first
    · exact right.order t is_first e member

/-- An attempt keeps the time with what it leaves of the queue, and clears it with the last
entry. -/
theorem writeOne_time (d : LogDefinition) (flushInterval : Duration) (env : AttemptEnv) (f : LogFile)
    (content : Option Bytes) :
    let f' := (d.writeOne warsaw flushInterval env f content).1
    (∃ n, f'.logs = f.logs.drop n) ∧ f'.timeOfFirstAdditionOfLogAfterWrite =
      if f'.logs.isEmpty then none else f.timeOfFirstAdditionOfLogAfterWrite := by
  intro f'
  rcases writeOne_outcome warsaw d flushInterval env f content with
    ⟨idle, skipped⟩ | ⟨ops, e, due, failed⟩ | ⟨ops, has, frame, due, encoded, written⟩
  · rw [show f' = _ from congrArg Prod.fst skipped, LogFile.afterSkip_eq]
    exact ⟨⟨0, rfl⟩, rfl⟩
  · rw [show f' = _ from congrArg Prod.fst failed]
    refine ⟨⟨0, rfl⟩, ?_⟩
    rw [if_neg (by simpa using due.1)]
  · rw [show f' = _ from congrArg Prod.fst written]
    exact ⟨⟨frame.consumed, rfl⟩, rfl⟩

theorem step_right {s : Waiting} (right : Right s) (op : FileOp)
    (later : ∀ d r now, op = .queue d r now → ∀ t, s.since = some t → t ≤ now) :
    Right (s.step warsaw op).1 := by
  cases op with
  | queue d r now => exact right_queue warsaw right d r now (later d r now rfl)
  | attempt d flushInterval env content =>
    cases live : s.live with
    | none =>
      unfold Waiting.step FileOp.step
      simp only [live]
      exact right_rest (n := 0) right (by rw [live]; rfl) (by simp)
    | some f =>
      obtain ⟨⟨n, logs⟩, time⟩ := writeOne_time warsaw d flushInterval env f content
      unfold Waiting.step FileOp.step
      simp only [live]
      refine right_rest (n := n) right (by rw [live]; exact logs) ?_
      intro f' same
      cases same
      rw [← right.time f live]
      exact time
  | cleanUp now =>
    unfold Waiting.step FileOp.step
    cases live : s.live with
    | none => exact right_rest (n := 0) right (by rw [live]; rfl) (by simp)
    | some f =>
      dsimp only
      by_cases used : f.inUse now
      · rw [Option.filter_some, if_pos used]
        refine right_rest (n := 0) right (by rw [live]; rfl) ?_
        intro f' same
        cases same
        rw [right.time f live]
        split
        · rename_i empty
          refine Option.not_isSome_iff_eq_none.mp fun pends => right.pending.mp pends ?_
          rw [live]
          simpa using empty
        · rfl
      · rw [Option.filter_some, if_neg used]
        have empty : f.logs = [] := by
          by_contra queued
          simp [LogFile.inUse, queued] at used
        refine right_rest (n := 0) right ?_ (by simp)
        rw [live]
        exact empty.symm

/-! ## Runs -/

/-- The times of the additions among the operations. -/
def additions (ops : List FileOp) : List Instant :=
  ops.filterMap fun
    | .queue _ _ now => some now
    | _ => none

/-- The times of the messages among the events. -/
def messageTimes (events : List Event) : List Instant :=
  events.filterMap fun
    | .message env _ => some env.now
    | _ => none

theorem since_step {s : Waiting} {op : FileOp} {t : Instant}
    (first : (s.step warsaw op).1.since = some t) : s.since = some t ∨ ∃ d r, op = .queue d r t := by
  unfold Waiting.step at first
  cases op with
  | queue d r now =>
    dsimp only at first
    split at first
    · cases first
      exact Or.inr ⟨d, r, rfl⟩
    · exact Or.inl first
  | _ =>
    dsimp only at first
    split at first
    · cases first
    · exact Or.inl first

/-- Operations whose additions come in the order of their times. -/
theorem run_right (ops : List FileOp) {s : Waiting} (right : Right s)
    (ordered : (additions ops).Pairwise (· ≤ ·))
    (later : ∀ t, s.since = some t → ∀ now ∈ additions ops, t ≤ now) :
    Machine.Throughout (Waiting.step warsaw) Right s ops := by
  induction ops generalizing s with
  | nil => exact right
  | cons op ops ih =>
    have head (d : LogDefinition) (r : Route) (now : Instant) (is_queue : op = .queue d r now) :
        additions (op :: ops) = now :: additions ops := by
      rw [is_queue]
      rfl
    have sub : (additions ops).Sublist (additions (op :: ops)) :=
      (List.sublist_cons_self op ops).filterMap _
    refine ⟨right, ih (step_right warsaw right op ?_) (ordered.sublist sub) ?_⟩
    · intro d r now is_queue t first
      apply later t first
      rw [head d r now is_queue]
      exact List.mem_cons_self
    · intro t first now member
      rcases since_step warsaw first with before | ⟨d, r, is_queue⟩
      · exact later t before now (sub.mem member)
      · rw [head d r t is_queue] at ordered
        exact List.rel_of_pairwise_cons ordered member

section Events
variable {warsaw} {name key : String}

theorem additions_append (ops more : List FileOp) :
    additions (ops ++ more) = additions ops ++ additions more :=
  List.filterMap_append

theorem additions_logOps (now : Instant) (w : OpLogWorker) (data : OpLogData) {t : Instant}
    (member : t ∈ additions (w.logOps warsaw name key now data)) : t = now := by
  unfold OpLogWorker.logOps at member
  split at member
  · cases member
  · dsimp only at member
    split at member
    · exact List.mem_singleton.mp member
    · cases member

theorem additions_logsOps (now : Instant) (logs : List OpLogData) (w : OpLogWorker) {t : Instant}
    (member : t ∈ additions (w.logsOps warsaw name key now logs)) : t = now := by
  induction logs generalizing w with
  | nil => cases member
  | cons data logs ih =>
    unfold OpLogWorker.logsOps at member
    rw [additions_append, List.mem_append] at member
    rcases member with first | rest
    · exact additions_logOps now w data first
    · exact ih _ rest

theorem additions_passOps (interval : LogDefinition → Duration) (env : PassEnv) (w : OpLogWorker)
    (disk : Disk) : additions (w.passOps warsaw name key interval env disk) = [] := by
  unfold OpLogWorker.passOps
  split
  · rfl
  · rfl

theorem additions_flushOps (env : Nat → PassEnv) (left n : Nat) (w : OpLogWorker) (disk : Disk) :
    additions (w.flushOps warsaw name key env left n disk) = [] := by
  induction left generalizing n w disk with
  | zero => exact additions_passOps _ _ _ _
  | succ left ih =>
    unfold OpLogWorker.flushOps
    rw [additions_append, additions_passOps, List.nil_append]
    split
    · rfl
    · exact ih _ _ _

/-- Every addition happens at the time of its message. -/
theorem additions_opsOn (s : World) (event : Event) {t : Instant}
    (member : t ∈ additions (s.opsOn warsaw name key event)) : messageTimes [event] = [t] := by
  cases event with
  | writerTick env =>
    unfold World.opsOn at member
    rw [additions_passOps] at member
    cases member
  | cleanupTick now deleted completed => cases member
  | message env msg =>
    have now : t = env.now := by
      unfold World.opsOn at member
      cases msg with
      | flush =>
        rw [show additions _ = [] from additions_flushOps _ _ _ _ _] at member
        cases member
      | getInfoAndFlush =>
        rw [show additions _ = [] from additions_flushOps _ _ _ _ _] at member
        cases member
      | logBundle bundle => exact additions_logsOps env.now bundle.logs _ member
      | log data => exact additions_logOps env.now s.worker data member
      | _ => cases member
    rw [now]
    rfl

theorem messageTimes_cons (event : Event) (events : List Event) :
    messageTimes (event :: events) = messageTimes [event] ++ messageTimes events := by
  unfold messageTimes
  rw [← List.filterMap_append, List.singleton_append]

theorem mem_additions_opsOf (s : World) (events : List Event) {t : Instant}
    (member : t ∈ additions (s.opsOf warsaw name key events)) : t ∈ messageTimes events := by
  induction events generalizing s with
  | nil => cases member
  | cons event events ih =>
    unfold World.opsOf at member
    rw [additions_append, List.mem_append] at member
    rw [messageTimes_cons, List.mem_append]
    rcases member with first | rest
    · rw [additions_opsOn s event first]
      exact Or.inl (List.mem_singleton_self t)
    · exact Or.inr (ih _ rest)

theorem additions_ordered (s : World) (events : List Event)
    (ordered : (messageTimes events).Pairwise (· ≤ ·)) :
    (additions (s.opsOf warsaw name key events)).Pairwise (· ≤ ·) := by
  induction events generalizing s with
  | nil => exact List.Pairwise.nil
  | cons event events ih =>
    rw [messageTimes_cons, List.pairwise_append] at ordered
    obtain ⟨-, rest, across⟩ := ordered
    unfold World.opsOf
    rw [additions_append, List.pairwise_append]
    refine ⟨?_, ih _ rest, ?_⟩
    · apply List.pairwise_of_forall_mem_list
      intro t first u second
      have same := (additions_opsOn s event first).symm.trans (additions_opsOn s event second)
      exact Nat.le_of_eq (List.cons.inj same).1
    · intro t first u later
      apply across t _ u (mem_additions_opsOf _ events later)
      rw [additions_opsOn s event first]
      exact List.mem_singleton_self t

end Events

/-! ## Writer ticks -/

/-- Every attempt of the pass hangs at its first call. -/
def hung (env : PassEnv) : PassEnv :=
  { env with attempt := fun name key =>
      { env.attempt name key with
        io := { (env.attempt name key).io with createDirAll := .pending } } }

/-- A writer tick attempts a disk write for the file: it would notice its first call hang. -/
def Attempts (s : World) (env : PassEnv) (name key : String) : Prop :=
  ∃ a ∈ attemptsOn name key (s.step warsaw (.writerTick (hung env))).2, a.result = .error .timedOut

theorem hung_attempt (d : LogDefinition) (flushInterval : Duration) (env : AttemptEnv) (f : LogFile)
    (content : Option Bytes) (hangs : env.io.createDirAll = .pending) :
    (d.writeOne warsaw flushInterval env f content).2.result = .error .timedOut ↔
      f.due flushInterval env.now := by
  by_cases due : f.due flushInterval env.now
  · refine iff_of_true ?_ due
    have stops : (f.writeToFile flushInterval (d.backlogNotice warsaw f env.utcNow) env content).result =
        .error .timedOut := by
      rw [writeToFile_due f flushInterval _ env content due, hangs]
      rfl
    rw [writeOne_error stops]
  · refine iff_of_false ?_ due
    rcases writeOne_outcome warsaw d flushInterval env f content with
      ⟨-, skipped⟩ | ⟨ops, e, is_due, -⟩ | ⟨ops, has, frame, is_due, -⟩
    · rw [skipped]
      intro impossible
      cases impossible
    · exact absurd is_due due
    · exact absurd is_due due

theorem attempts_iff {s : World} {name key : String} {d : LogDefinition} {f : LogFile}
    (stored : s.worker.definitions.get? name = some d) (live : s.worker.file? name key = some f)
    (env : PassEnv) :
    Attempts warsaw s env name key ↔ f.due d.flushInterval (env.attempt name key).now := by
  have visit := s.worker.file?_writePass warsaw (·.flushInterval) (hung env) s.disk name key
  rw [live] at visit
  obtain ⟨d', content, stored', -, -, one⟩ := visit
  rw [stored] at stored'
  cases stored'
  have ticked : attemptsOn name key (s.step warsaw (.writerTick (hung env))).2 =
      [(d.writeOne warsaw d.flushInterval ((hung env).attempt name key) f content).2] := by
    rw [← one]
    unfold attemptsOn
    rw [World.step, List.flatMap_cons, List.flatMap_nil, List.append_nil]
    rfl
  unfold Attempts
  simp only [ticked, List.mem_singleton, exists_eq_left]
  exact hung_attempt warsaw d d.flushInterval ((hung env).attempt name key) f content rfl

/-- With the time right, an attempt is due when the interval has passed since. -/
theorem due_iff {f : LogFile} {since : Option Instant}
    (time : f.timeOfFirstAdditionOfLogAfterWrite = since) (pending : since.isSome ↔ f.logs ≠ [])
    (flushInterval : Duration) (now : Instant) :
    f.due flushInterval now ↔ f.logs ≠ [] ∧
      ∃ t, f.timeOfFirstAdditionOfLogAfterWrite = some t ∧
        flushInterval ≤ Instant.elapsed t now := by
  unfold LogFile.due LogFile.early
  refine and_congr_right fun queued => ?_
  obtain ⟨t, is_t⟩ := Option.isSome_iff_exists.mp (pending.mpr queued)
  rw [time, is_t]
  simp

/-- In every run whose messages come with clocks that do not go back, for every file and at
every point of the run: there is a time exactly if an entry is queued, it is that of the first
addition since the queue was empty, and no queued entry is older. And at the end a writer tick
attempts a write exactly if an entry is queued and the interval has passed since that time,
in particular whenever it has passed for any queued entry. -/
theorem entries_wait_at_most_the_interval (disk : Disk) (events : List Event)
    (ordered : (messageTimes events).Pairwise (· ≤ ·)) (name key : String) :
    let ops := World.opsOf warsaw name key ⟨.new, disk⟩ events
    let final := (Machine.run (World.step warsaw) ⟨.new, disk⟩ events).1
    let waiting := (Machine.run (Waiting.step warsaw) .start ops).1
    Machine.Throughout (Waiting.step warsaw) Right .start ops ∧
      waiting.live = final.worker.file? name key ∧
      ∀ d f (env : PassEnv), final.worker.definitions.get? name = some d →
        final.worker.file? name key = some f →
        (Attempts warsaw final env name key ↔ f.logs ≠ [] ∧
          ∃ t, f.timeOfFirstAdditionOfLogAfterWrite = some t ∧
            d.flushInterval ≤ Instant.elapsed t (env.attempt name key).now) ∧
        ∀ e ∈ waiting.queued, e.2 + d.flushInterval ≤ (env.attempt name key).now →
          Attempts warsaw final env name key := by
  intro ops final waiting
  have start : Right .start := ⟨rfl, by simp [Waiting.start], by simp [Waiting.start, queueOf],
    by simp [Waiting.start]⟩
  have always := run_right warsaw ops start (additions_ordered ⟨.new, disk⟩ events ordered)
    (by simp [Waiting.start])
  have right : Right waiting := Machine.throughout_final always
  have live : waiting.live = final.worker.file? name key := by
    have carried := Machine.run_carries Waiting.live
      (fun s op => (rfl : (s.step warsaw op).1.live = (op.step warsaw s.live).1)) .start ops
    exact carried.trans (congrArg Prod.fst (World.run_opsOf ⟨.new, disk⟩ events))
  refine ⟨always, live, ?_⟩
  intro d f env stored there
  rw [there] at live
  have pending := right.pending
  rw [live] at pending
  have decided := due_iff (right.time f live) pending d.flushInterval (env.attempt name key).now
  rw [attempts_iff warsaw stored there env]
  refine ⟨decided, ?_⟩
  intro e member passed
  have queued : f.logs ≠ [] := by
    intro empty
    have none_queued : waiting.queued = [] := by
      rw [← List.map_eq_nil_iff, right.entries, live]
      exact empty
    rw [none_queued] at member
    cases member
  obtain ⟨t, first⟩ := Option.isSome_iff_exists.mp (pending.mpr queued)
  have older := right.order t first e member
  apply decided.mpr
  refine ⟨queued, t, (right.time f live).trans first, ?_⟩
  apply Nat.le_sub_of_add_le
  calc d.flushInterval + t ≤ d.flushInterval + e.2 := Nat.add_le_add_left older _
    _ = e.2 + d.flushInterval := Nat.add_comm _ _
    _ ≤ _ := passed

end Warsaw

/-- A definition with an interval of a second, and an entry. -/
def oneEntry : List Event :=
  [.message ⟨0, ⟨fun _ => passEnv (storedEnv allDone), 0⟩⟩
      (.logDefinition ⟨"app", .noSplit, "", "logs", [], 1000000000, false⟩),
    .message ⟨5, ⟨fun _ => passEnv (storedEnv allDone), 0⟩⟩ (.log ⟨"app", "one", 0⟩)]

theorem entries_wait_one_entry :
    Attempts warsawAtEpoch (Machine.run (World.step warsawAtEpoch) ⟨.new, fun _ => none⟩ oneEntry).1
      (passEnv { storedEnv allDone with now := 1000000005 }) "app" "logs/app.log" := by
  have waits := entries_wait_at_most_the_interval warsawAtEpoch (fun _ => none) oneEntry (by decide)
    "app" "logs/app.log"
  exact (waits.2.2 _ _ _ rfl rfl).2 ("one", 5) (by decide +kernel) (by decide)

end OpLog.Guarantees.FlushInterval
