import OpLog.Guarantees.Delivery
import OpLog.Source.Process

/-!
# What a step does to an instance

The process, one instance at a time: what an instance sees of a history, how its strong count
goes with the references to it, and the few moves it can make, whatever the event is about.
-/
namespace OpLog.Guarantees.Instances
open Library Source

/-! ## What an instance sees of a history -/

def acceptedBy (i : Nat) (past : List ProcessOutput) : List OpLogMessage :=
  past.flatMap fun
    | .accepted inst msgs => if inst = i then msgs else []
    | _ => []

def receivedBy (i : Nat) (past : List ProcessOutput) : List OpLogMessage :=
  past.filterMap fun
    | .received inst msg => if inst = i then some msg else none
    | _ => none

def outsOf (i : Nat) (past : List ProcessOutput) : List Output :=
  past.flatMap fun
    | .out inst outputs => if inst = i then outputs else []
    | _ => []

/-- The task of the instance has found its channel closed. -/
def closedBy (i : Nat) (past : List ProcessOutput) : Bool :=
  past.any fun
    | .closed inst => decide (inst = i)
    | _ => false

/-- The instance an output is about. -/
def about : ProcessOutput → Nat
  | .accepted inst _ => inst
  | .received inst _ => inst
  | .closed inst => inst
  | .out inst _ => inst

structure Seen where
  accepted : List OpLogMessage
  received : List OpLogMessage
  outs : List Output
  closed : Bool

def seen (i : Nat) (past : List ProcessOutput) : Seen :=
  ⟨acceptedBy i past, receivedBy i past, outsOf i past, closedBy i past⟩

def Seen.append (s s' : Seen) : Seen :=
  ⟨s.accepted ++ s'.accepted, s.received ++ s'.received, s.outs ++ s'.outs, s.closed || s'.closed⟩

section Views
variable (i : Nat) (past more : List ProcessOutput)

@[simp] theorem acceptedBy_append : acceptedBy i (past ++ more) = acceptedBy i past ++ acceptedBy i more :=
  List.flatMap_append

@[simp] theorem receivedBy_append : receivedBy i (past ++ more) = receivedBy i past ++ receivedBy i more :=
  List.filterMap_append

@[simp] theorem outsOf_append : outsOf i (past ++ more) = outsOf i past ++ outsOf i more :=
  List.flatMap_append

@[simp] theorem closedBy_append : closedBy i (past ++ more) = (closedBy i past || closedBy i more) :=
  List.any_append

theorem seen_append : seen i (past ++ more) = (seen i past).append (seen i more) := by
  simp only [seen, Seen.append, acceptedBy_append, receivedBy_append, outsOf_append, closedBy_append]

theorem seen_cons (out : ProcessOutput) : seen i (out :: past) = (seen i [out]).append (seen i past) :=
  seen_append i [out] past

/-- An instance sees nothing of what is not about it. -/
theorem seen_nothing (others : ∀ out ∈ past, about out ≠ i) : seen i past = ⟨[], [], [], false⟩ := by
  induction past with
  | nil => rfl
  | cons out past ih =>
    have first := others out List.mem_cons_self
    rw [seen_cons, ih fun out member => others out (List.mem_cons_of_mem _ member)]
    cases out <;>
      simp_all [seen, Seen.append, acceptedBy, receivedBy, outsOf, closedBy, about]

end Views

/-! ## References -/

/-- The global logger holds a reference to the instance. -/
def holds (logger : Option Logger) (i : Nat) : Bool :=
  match logger with
  | some (.opLog logger) => decide (logger.inner = i)
  | _ => false

/-- The live handles on an instance, and the global logger. -/
def references (p : Process) (i : Nat) : Nat :=
  p.handles.count (some i) + if holds p.logger i then 1 else 0

/-- Every strong count is the number of references, and what is referred to is there. -/
structure Counted (p : Process) : Prop where
  counts : ∀ i inst, p.instances[i]? = some inst → inst.strong = references p i
  named : ∀ i, p.instances.length ≤ i → references p i = 0

theorem held_count {p : Process} {handle i : Nat} (held : p.held handle = some i) :
    0 < p.handles.count (some i) := by
  unfold Process.held at held
  have slot : p.handles[handle]? = some (some i) := by
    cases there : p.handles[handle]? with
    | none =>
      rw [there] at held
      cases held
    | some slot =>
      rw [there] at held
      exact congrArg some held
  exact List.count_pos_iff.mpr (List.mem_of_getElem? slot)

theorem held_referenced {p : Process} {handle i : Nat} (held : p.held handle = some i) :
    0 < references p i :=
  Nat.lt_of_lt_of_le (held_count held) (Nat.le_add_right _ _)

theorem logger_referenced {p : Process} {logger : OpLogSystemLogger}
    (set : p.logger = some (.opLog logger)) : 0 < references p logger.inner := by
  unfold references holds
  rw [set]
  simp

/-! ## Calls -/

/-- More messages at the end of the queue. -/
def Grown (inner inner' : OpLogInner) (more : List OpLogMessage) : Prop :=
  inner'.tx.queue = inner.tx.queue ++ more

/-- A call only adds to the queue. -/
def Grows (f : OpLogInner → OpLogInner) : Prop := ∀ inner, ∃ more, Grown inner (f inner) more

theorem queue_trySend (inner : OpLogInner) (msg : OpLogMessage) {tx : Channel}
    (sent : inner.tx.trySend CHANNEL_CAPACITY msg = some tx) :
    tx.queue = inner.tx.queue ++ [msg] := by
  unfold Channel.trySend at sent
  split at sent
  · rw [← Option.some.inj sent]
  · cases sent

theorem grows_send (msg : OpLogMessage) : Grows (·.send msg) := by
  intro inner
  unfold Grown OpLogInner.send
  dsimp only
  cases sent : inner.tx.trySend CHANNEL_CAPACITY msg with
  | none => exact ⟨[], by rw [Option.getD_none, List.append_nil]⟩
  | some tx => exact ⟨[msg], by rw [Option.getD_some, queue_trySend inner msg sent]⟩

/-- The notice and the entry, each if there is room for it. -/
theorem grows_sendLog (data : OpLogData) : Grows (·.sendLog CHANNEL_CAPACITY data) := by
  intro inner
  unfold Grown OpLogInner.sendLog
  dsimp only
  by_cases pending : inner.droppedLogs > 0
  · rw [if_pos pending]
    cases notice : inner.tx.trySend CHANNEL_CAPACITY (.log (dropNotice data inner.droppedLogs)) with
    | none =>
      dsimp only
      split
      · exact ⟨[.log data], queue_trySend inner _ ‹_›⟩
      · exact ⟨[], (List.append_nil _).symm⟩
    | some tx =>
      dsimp only
      split
      · rename_i tx' sent
        have queue := queue_trySend ⟨tx, inner.handle, 0⟩ _ sent
        rw [queue_trySend inner _ notice, List.append_assoc] at queue
        exact ⟨_, queue⟩
      · exact ⟨_, queue_trySend inner _ notice⟩
  · rw [if_neg pending]
    split
    · exact ⟨[.log data], queue_trySend inner _ ‹_›⟩
    · exact ⟨[], (List.append_nil _).symm⟩

/-- Nothing but calls on instances that are referred to: queues grow by what was accepted. -/
structure Called (p p' : Process) (out : List ProcessOutput) : Prop where
  disk : p'.disk = p.disk
  handles : p'.handles = p.handles
  logger : p'.logger = p.logger
  length : p'.instances.length = p.instances.length
  quiet : ∀ j, seen j out = ⟨acceptedBy j out, [], [], false⟩
  queues : ∀ j inst, p.instances[j]? = some inst →
    ∃ inner, p'.instances[j]? = some { inst with inner } ∧ Grown inst.inner inner (acceptedBy j out)
  referenced : ∀ j, acceptedBy j out ≠ [] → 0 < references p j
  known : ∀ o ∈ out, about o < p.instances.length

theorem Called.references {p p' : Process} {out : List ProcessOutput} (called : Called p p' out)
    (j : Nat) : references p' j = references p j := by
  unfold Instances.references
  rw [called.handles, called.logger]

theorem called_refl (p : Process) : Called p p [] where
  disk := rfl
  handles := rfl
  logger := rfl
  length := rfl
  quiet _ := rfl
  queues _ inst there := ⟨inst.inner, there, (List.append_nil _).symm⟩
  referenced _ some := absurd rfl some
  known o member := by cases member

theorem Called.trans {p p' p'' : Process} {out out' : List ProcessOutput} (first : Called p p' out)
    (second : Called p' p'' out') : Called p p'' (out ++ out') where
  disk := second.disk.trans first.disk
  handles := second.handles.trans first.handles
  logger := second.logger.trans first.logger
  length := second.length.trans first.length
  quiet j := by
    rw [seen_append, first.quiet, second.quiet, acceptedBy_append]
    rfl
  queues j inst there := by
    obtain ⟨inner, there', grown⟩ := first.queues j inst there
    obtain ⟨inner', there'', grown'⟩ := second.queues j _ there'
    refine ⟨inner', there'', ?_⟩
    unfold Grown at grown grown' ⊢
    rw [grown', grown, acceptedBy_append, List.append_assoc]
  referenced j some := by
    by_cases none : acceptedBy j out = []
    · rw [acceptedBy_append, none, List.nil_append] at some
      rw [← first.references j]
      exact second.referenced j some
    · exact first.referenced j none
  known o member := by
    rcases List.mem_append.mp member with earlier | later
    · exact first.known o earlier
    · exact first.length ▸ second.known o later

theorem get?_modify (p : Process) (i j : Nat) (f : Instance → Instance) :
    (p.modify i f).instances[j]? = (p.instances[j]?).map fun inst => if i = j then f inst else inst :=
  List.getElem?_modify f i p.instances j

theorem called_call {p : Process} {i : Nat} (f : OpLogInner → OpLogInner) (grows : Grows f)
    (referenced : 0 < references p i) : Called p (p.call i f).1 (p.call i f).2 := by
  unfold Process.call
  cases there : p.instances[i]? with
  | none => exact called_refl p
  | some inst =>
    obtain ⟨more, grown⟩ := grows inst.inner
    have added : (f inst.inner).tx.queue.drop inst.inner.tx.queue.length = more := by
      rw [show (f inst.inner).tx.queue = _ from grown, List.drop_left]
    dsimp only
    rw [added]
    have here (j : Nat) : acceptedBy j [.accepted i more] = if i = j then more else [] :=
      List.append_nil _
    refine ⟨rfl, rfl, rfl, List.length_modify _ _ _, fun j => rfl, ?_, ?_, ?_⟩
    · intro j inst' there'
      rw [get?_modify, there', here]
      by_cases same : i = j
      · subst same
        obtain rfl : inst = inst' := Option.some.inj (there.symm.trans there')
        refine ⟨f inst.inner, by rw [Option.map_some, if_pos rfl], ?_⟩
        rw [if_pos rfl]
        exact grown
      · refine ⟨inst'.inner, by rw [Option.map_some, if_neg same], ?_⟩
        rw [if_neg same]
        exact (List.append_nil _).symm
    · intro j some
      rw [here] at some
      by_cases same : i = j
      · exact same ▸ referenced
      · rw [if_neg same] at some
        exact absurd rfl some
    · intro o member
      rw [List.mem_singleton.mp member]
      exact (List.getElem?_eq_some_iff.mp there).1

/-- What nothing refers to is not called. -/
theorem Called.silent {p p' : Process} {out : List ProcessOutput} (called : Called p p' out) {j : Nat}
    (none : Instances.references p j = 0) : acceptedBy j out = [] := by
  by_contra some
  have referenced := called.referenced j some
  omega

theorem called_record (p : Process) (level : Level) (date : DateTimeUtc) (args : String) :
    Called p (p.record level date args).1 (p.record level date args).2 := by
  unfold Process.record
  split
  · split
    · rename_i logger set
      split
      · exact called_call _ (grows_sendLog _) (logger_referenced set)
      · exact called_refl p
    · exact called_refl p
  · exact called_refl p

theorem called_report (p : Process) (lines : List (DateTimeUtc × String)) :
    Called p (p.report lines).1 (p.report lines).2 := by
  induction lines generalizing p with
  | nil => exact called_refl p
  | cons line lines ih => exact (called_record p .info line.1 line.2).trans (ih _)

/-! ## What an event does to an instance -/

/-- The passes that an event of a task may make. -/
def TaskPasses : TaskEvent → PassEnv → Prop
  | .writerTick env, pass => pass = env
  | .cleanupTick .., _ => False
  | .recv env _, pass => ∃ n, pass = env.flush.pass n
  | .lastFlush env _, pass => ∃ n, pass = env.pass n

/-- Those of the task of an instance in a run of the process. -/
def passesBy (i : Nat) (events : List ProcessEvent) (pass : PassEnv) : Prop :=
  ∃ event, .task i event ∈ events ∧ TaskPasses event pass

section Warsaw
variable (warsaw : DateTimeUtc → LocalDateTime) (passes : PassEnv → Prop)

/-- One instance before and behind an event, and what it sees of it; its task makes none but these
passes. -/
inductive Moves (inst : Instance) : Instance → Seen → Prop where
  /-- somebody called, or a reference came or went -/
  | called (strong : Nat) (inner : OpLogInner) (more : List OpLogMessage)
      (grown : Grown inst.inner inner more) :
      Moves inst { inst with strong, inner } ⟨more, [], [], false⟩
  | ticked (disk : Disk) (event : Event) (done : World × List Output) (inner : OpLogInner)
      (more : List OpLogMessage) (unasked : ∀ env msg, event ≠ .message env msg)
      (worked : World.step warsaw ⟨inst.worker, disk⟩ event = done)
      (made : ∀ pass, Delivery.Passes event pass → passes pass)
      (grown : Grown inst.inner inner more) :
      Moves inst { inst with inner, worker := done.1.worker } ⟨more, [], done.2, false⟩
  | received (disk : Disk) (env : MessageEnv) (msg : OpLogMessage) (tx : Channel)
      (done : World × List Output) (inner : OpLogInner) (more : List OpLogMessage)
      (running : inst.task = .running) (going : msg ≠ .stopService)
      (isNext : inst.inner.tx.recv = some (msg, tx))
      (worked : World.step warsaw ⟨inst.worker, disk⟩ (.message env msg) = done)
      (made : ∀ n, passes (env.flush.pass n))
      (grown : Grown { inst.inner with tx } inner more) :
      Moves inst { inst with inner, worker := done.1.worker } ⟨more, [msg], done.2, false⟩
  | stopped (tx : Channel) (running : inst.task = .running)
      (isNext : inst.inner.tx.recv = some (.stopService, tx)) :
      Moves inst { inst with inner.tx := tx, task := .flushing } ⟨[], [.stopService], [], false⟩
  | closed (running : inst.task = .running) (empty : inst.inner.tx.queue = [])
      (unreferenced : inst.strong = 0) :
      Moves inst { inst with task := .flushing } ⟨[], [], [], true⟩
  | ended (disk : Disk) (env : OpLogWorker.FlushEnv) (done : World × List Output)
      (inner : OpLogInner) (more : List OpLogMessage) (flushing : inst.task = .flushing)
      (worked : World.flush warsaw ⟨inst.worker, disk⟩ env = done)
      (made : ∀ n, passes (env.pass n)) :
      Moves inst { inst with inner, task := .finished, worker := done.1.worker }
        ⟨more, [], done.2, false⟩

theorem moves_refl (inst : Instance) : Moves warsaw passes inst inst ⟨[], [], [], false⟩ :=
  .called inst.strong inst.inner [] (List.append_nil _).symm

/-- Calls alone, whatever they were made on. -/
theorem moves_called {p p' : Process} {out : List ProcessOutput} (called : Called p p' out) {j : Nat}
    {inst : Instance} (there : p.instances[j]? = some inst) :
    ∃ inst', p'.instances[j]? = some inst' ∧ Moves warsaw passes inst inst' (seen j out) := by
  obtain ⟨inner, there', grown⟩ := called.queues j inst there
  rw [called.quiet]
  exact ⟨_, there', .called inst.strong inner _ grown⟩

/-- What the event does to the instances it is not about. -/
theorem moves_aside {p p' p'' : Process} {out done : List ProcessOutput} (called : Called p p' out)
    {i j : Nat} (other : i ≠ j) (f : Instance → Instance)
    (instances : p''.instances = (p'.modify i f).instances)
    (silent : seen j done = ⟨[], [], [], false⟩) {inst : Instance}
    (there : p.instances[j]? = some inst) :
    ∃ inst', p''.instances[j]? = some inst' ∧
      Moves warsaw passes inst inst' (seen j (out ++ done)) := by
  obtain ⟨inst', there', moves⟩ := moves_called warsaw passes called there
  refine ⟨inst', ?_, ?_⟩
  · rw [instances, get?_modify, there', Option.map_some, if_neg other]
  · rw [seen_append, silent]
    simpa only [Seen.append, List.append_nil, Bool.or_false] using moves

theorem seen_out (i : Nat) (out : List Output) : seen i [.out i out] = ⟨[], [], out, false⟩ := by
  simp [seen, acceptedBy, receivedBy, outsOf, closedBy]

theorem seen_received (i : Nat) (msg : OpLogMessage) :
    seen i [.received i msg] = ⟨[], [msg], [], false⟩ := by
  simp [seen, acceptedBy, receivedBy, outsOf, closedBy]

theorem seen_closed (i : Nat) : seen i [.closed i] = ⟨[], [], [], true⟩ := by
  simp [seen, acceptedBy, receivedBy, outsOf, closedBy]

theorem seen_other {i j : Nat} (other : i ≠ j) {out : ProcessOutput} (mine : about out = i) :
    seen j [out] = ⟨[], [], [], false⟩ :=
  seen_nothing j _ fun _ member => by rwa [List.mem_singleton.mp member, mine]

variable {passes}

/-- The worker of an instance takes a step behind calls that were made meanwhile. -/
theorem moves_work {p p' : Process} {out : List ProcessOutput} (called : Called p p' out) {i j : Nat}
    {mine inst : Instance} (own : p.instances[i]? = some mine) (event : Event)
    (unasked : ∀ env msg, event ≠ .message env msg)
    (made : i = j → ∀ pass, Delivery.Passes event pass → passes pass)
    (there : p.instances[j]? = some inst) :
    ∃ inst', (p'.work warsaw i mine event).1.instances[j]? = some inst' ∧
      Moves warsaw passes inst inst' (seen j (out ++ (p'.work warsaw i mine event).2)) := by
  by_cases same : i = j
  · subst same
    obtain rfl : mine = inst := Option.some.inj (own.symm.trans there)
    obtain ⟨inner, there', grown⟩ := called.queues i mine there
    let done := World.step warsaw ⟨mine.worker, p'.disk⟩ event
    refine ⟨{ mine with inner, worker := done.1.worker }, ?_, ?_⟩
    · unfold Process.work
      rw [get?_modify, there', Option.map_some, if_pos rfl]
    · rw [seen_append, called.quiet]
      unfold Process.work
      rw [seen_out]
      simpa only [Seen.append, List.append_nil, List.nil_append, Bool.or_false] using
        Moves.ticked p'.disk event done inner _ unasked rfl (made rfl) grown
  · exact moves_aside warsaw passes called same _ rfl (seen_other same rfl) there

theorem recv_empty {tx : Channel} (nothing : tx.recv = none) : tx.queue = [] := by
  unfold Channel.recv at nothing
  split at nothing
  · assumption
  · cases nothing

theorem moves_recv {p : Process} {i j : Nat} {mine inst : Instance} (own : p.instances[i]? = some mine)
    (running : mine.task = .running) (env : MessageEnv) (utcNow : DateTimeUtc)
    (made : i = j → ∀ n, passes (env.flush.pass n)) (there : p.instances[j]? = some inst) :
    ∃ inst', (p.recv warsaw i mine env utcNow).1.instances[j]? = some inst' ∧
      Moves warsaw passes inst inst' (seen j (p.recv warsaw i mine env utcNow).2) := by
  have aside (other : i ≠ j) (f : Instance → Instance) : (p.modify i f).instances[j]? = some inst := by
    rw [get?_modify, there, Option.map_some, if_neg other]
  have here (f : Instance → Instance) : (p.modify i f).instances[i]? = some (f mine) := by
    rw [get?_modify, own, Option.map_some, if_pos rfl]
  unfold Process.recv
  split
  · rename_i nothing
    split
    · rename_i unreferenced
      by_cases same : i = j
      · subst same
        obtain rfl := Option.some.inj (own.symm.trans there)
        refine ⟨_, here _, ?_⟩
        rw [seen_closed]
        exact .closed running (recv_empty nothing) unreferenced
      · refine ⟨inst, aside same _, ?_⟩
        rw [seen_other same rfl]
        exact moves_refl warsaw passes inst
    · exact ⟨inst, there, moves_refl warsaw passes inst⟩
  · rename_i tx isNext
    by_cases same : i = j
    · subst same
      obtain rfl := Option.some.inj (own.symm.trans there)
      refine ⟨_, here _, ?_⟩
      rw [seen_received]
      exact .stopped tx running isNext
    · refine ⟨inst, aside same _, ?_⟩
      rw [seen_other same rfl]
      exact moves_refl warsaw passes inst
  · rename_i msg tx going isNext
    have called := called_report (p.modify i fun inst => { inst with inner.tx := tx })
      (Process.flushLines utcNow msg)
    dsimp only
    generalize (p.modify i fun inst => { inst with inner.tx := tx }).report
      (Process.flushLines utcNow msg) = reported at called
    obtain ⟨p', lines⟩ := reported
    dsimp only at called ⊢
    rw [List.cons_append, seen_cons]
    by_cases same : i = j
    · subst same
      obtain rfl := Option.some.inj (own.symm.trans there)
      obtain ⟨inner, there', grown⟩ := called.queues i _ (here _)
      let done := World.step warsaw ⟨mine.worker, p'.disk⟩ (.message env msg)
      refine ⟨{ mine with inner, worker := done.1.worker }, ?_, ?_⟩
      · unfold Process.work
        rw [get?_modify, there', Option.map_some, if_pos rfl]
      · rw [seen_append, seen_received, called.quiet]
        unfold Process.work
        rw [seen_out]
        simpa only [Seen.append, List.append_nil, List.nil_append, Bool.or_false] using
          Moves.received p'.disk env msg tx done inner _ running going isNext rfl (made rfl) grown
    · have silent (worked : List Output) : seen j [.out i worked] = ⟨[], [], [], false⟩ :=
        seen_other same rfl
      obtain ⟨inst', there', moves⟩ := moves_aside warsaw passes called same _ rfl (silent _)
        (aside same fun inst => { inst with inner.tx := tx })
      refine ⟨inst', there', ?_⟩
      rw [seen_other same rfl]
      exact moves

theorem moves_lastFlush {p : Process} {i j : Nat} {mine inst : Instance}
    (own : p.instances[i]? = some mine) (flushing : mine.task = .flushing)
    (env : OpLogWorker.FlushEnv) (utcNow : DateTimeUtc) (made : i = j → ∀ n, passes (env.pass n))
    (there : p.instances[j]? = some inst) :
    ∃ inst', (p.lastFlush warsaw i mine env utcNow).1.instances[j]? = some inst' ∧
      Moves warsaw passes inst inst' (seen j (p.lastFlush warsaw i mine env utcNow).2) := by
  have called := called_report p [(utcNow, "flush()")]
  unfold Process.lastFlush
  generalize p.report [(utcNow, "flush()")] = reported at called
  obtain ⟨p', lines⟩ := reported
  dsimp only at called ⊢
  by_cases same : i = j
  · subst same
    obtain rfl : mine = inst := Option.some.inj (own.symm.trans there)
    obtain ⟨inner, there', grown⟩ := called.queues i mine there
    let done := World.flush warsaw ⟨mine.worker, p'.disk⟩ env
    let closed : OpLogInner := { inner with tx := inner.tx.close }
    refine ⟨{ mine with inner := closed, task := .finished, worker := done.1.worker }, ?_, ?_⟩
    · rw [get?_modify, there', Option.map_some, if_pos rfl]
    · rw [seen_append, called.quiet, seen_out]
      simpa only [Seen.append, List.append_nil, List.nil_append, Bool.or_false] using
        Moves.ended p'.disk env done closed _ flushing rfl (made rfl)
  · exact moves_aside warsaw passes called same _ rfl (seen_other same rfl) there

/-- A reference that comes and goes at once. -/
theorem release_retain (p : Process) (i : Nat) : (p.retain i).release i = p := by
  have same : ((p.retain i).release i).instances = p.instances := by
    apply List.ext_getElem?
    intro j
    rw [Process.release, get?_modify, Process.retain, get?_modify]
    cases p.instances[j]? with
    | none => rfl
    | some inst => by_cases here : i = j <;> simp [here]
  cases p
  simp only [Process.release, Process.retain, Process.modify] at same ⊢
  rw [same]

/-- With a logger set, `def_system_log` is `def`. -/
theorem defSystemLog_late {p : Process} (set : p.logger ≠ none) (i : Nat) (d : OpLogDefinition) :
    p.defSystemLog i d = p.call i (·.send (.logDefinition d)) := by
  have same : (p.call i (·.send (.logDefinition d))).1.logger = p.logger := by
    unfold Process.call
    split <;> rfl
  unfold Process.defSystemLog
  generalize p.call i (·.send (.logDefinition d)) = sent at same
  obtain ⟨p', out⟩ := sent
  dsimp only at same ⊢
  split
  · rename_i unset
    exact absurd (same.symm.trans unset) set
  · rw [release_retain]

theorem moves_task {p : Process} {i j : Nat} {mine inst : Instance} (own : p.instances[i]? = some mine)
    (event : TaskEvent) (made : i = j → ∀ pass, TaskPasses event pass → passes pass)
    (there : p.instances[j]? = some inst) :
    ∃ inst', (p.task warsaw i mine event).1.instances[j]? = some inst' ∧
      Moves warsaw passes inst inst' (seen j (p.task warsaw i mine event).2) := by
  have idle : ∃ inst', p.instances[j]? = some inst' ∧
      Moves warsaw passes inst inst' (seen j []) :=
    ⟨inst, there, moves_refl warsaw passes inst⟩
  cases event with
  | writerTick env =>
    unfold Process.task
    dsimp only
    split
    · exact moves_work warsaw (called_refl p) own (.writerTick env) (by simp) made there
    · exact idle
  | cleanupTick now deleted completed lines =>
    unfold Process.task
    dsimp only
    split
    · exact moves_work warsaw (called_report p lines) own (.cleanupTick now deleted completed)
        (by simp) made there
    · exact idle
  | recv env utcNow =>
    unfold Process.task
    dsimp only
    split
    · exact moves_recv warsaw own ‹_› env utcNow (fun same n => made same _ ⟨n, rfl⟩) there
    · exact idle
  | lastFlush env utcNow =>
    unfold Process.task
    dsimp only
    split
    · exact moves_lastFlush warsaw own ‹_› env utcNow (fun same n => made same _ ⟨n, rfl⟩) there
    · exact idle

/-! ## What a step is -/

/-- The process behind an event, and what was put out. -/
inductive Effect (p : Process) (event : ProcessEvent) : Process → List ProcessOutput → Prop where
  | called (p' : Process) (out : List ProcessOutput) (called : Called p p' out) :
      Effect p event p' out
  | made : Effect p event { p with
      instances := p.instances ++ [⟨1, ⟨.empty, true, 0⟩, .running, .new⟩]
      handles := p.handles ++ [some p.instances.length] } []
  | cloned (handle i : Nat) (held : p.held handle = some i) :
      Effect p event { p.retain i with handles := p.handles ++ [some i] } []
  | dropped (handle i : Nat) (held : p.held handle = some i) :
      Effect p event { p.release i with handles := p.handles.set handle none } []
  /-- the first `def_system_log`, behind its `def` -/
  | installed (handle i : Nat) (name : String) (p' : Process) (out : List ProcessOutput)
      (held : p.held handle = some i) (unset : p'.logger = none) (called : Called p p' out) :
      Effect p event { p'.retain i with
        logger := some (.opLog ⟨i, name⟩)
        maxLevel := Level.trace.toNat } out
  | taken (unset : p.logger = none) :
      Effect p event { p with logger := some .foreign } []
  | worked (i : Nat) (inst : Instance) (task : TaskEvent) (own : p.instances[i]? = some inst)
      (isTask : event = .task i task) :
      Effect p event (p.task warsaw i inst task).1 (p.task warsaw i inst task).2

theorem step_effect (p : Process) (event : ProcessEvent) :
    Effect warsaw p event (p.step warsaw event).1 (p.step warsaw event).2 := by
  have idle : Effect warsaw p event p [] := .called p [] (called_refl p)
  cases event with
  | new => exact .made
  | clone handle =>
    unfold Process.step
    dsimp only
    split
    · exact .cloned handle _ ‹_›
    · exact idle
  | drop handle =>
    unfold Process.step
    dsimp only
    split
    · exact .dropped handle _ ‹_›
    · exact idle
  | send handle msg =>
    unfold Process.step
    dsimp only
    split
    · exact .called _ _ (called_call _ (grows_send msg) (held_referenced ‹_›))
    · exact idle
  | log handle data =>
    unfold Process.step
    dsimp only
    split
    · exact .called _ _ (called_call _ (grows_sendLog data) (held_referenced ‹_›))
    · exact idle
  | defSystemLog handle d =>
    unfold Process.step
    dsimp only
    split
    · rename_i i held
      have called := called_call _ (grows_send (.logDefinition d)) (held_referenced held)
      by_cases unset : p.logger = none
      · unfold Process.defSystemLog
        generalize p.call i (·.send (.logDefinition d)) = sent at called
        obtain ⟨p', out⟩ := sent
        dsimp only at called ⊢
        have unset' : p'.logger = none := called.logger.trans unset
        rw [show (p'.retain i).logger = none from unset']
        exact .installed handle i d.logName p' out held unset' called
      · rw [defSystemLog_late unset]
        exact .called _ _ called
    · exact idle
  | setLogger =>
    cases set : p.logger with
    | none =>
      have foreign : (p.step warsaw .setLogger).1 = { p with logger := some .foreign } := by
        simp [Process.step, set]
      rw [foreign]
      exact .taken set
    | some logger =>
      have same : (p.step warsaw .setLogger).1 = p := by
        cases p
        cases set
        rfl
      rw [same]
      exact idle
  | setMaxLevel level =>
    exact .called _ _ ⟨rfl, rfl, rfl, rfl, (called_refl p).quiet, (called_refl p).queues,
      (called_refl p).referenced, (called_refl p).known⟩
  | record level date args => exact .called _ _ (called_record p level date args)
  | flushLogger =>
    unfold Process.step
    dsimp only
    split
    · exact .called _ _ (called_call _ (grows_send .flush) (logger_referenced ‹_›))
    · exact idle
  | task i event =>
    unfold Process.step
    dsimp only
    split
    · exact .worked i _ event ‹_› rfl
    · exact idle

/-- An instance that is there stays, and goes through one of its moves. -/
theorem step_moves (p : Process) (event : ProcessEvent) {j : Nat} {inst : Instance}
    (made : ∀ task pass, event = .task j task → TaskPasses task pass → passes pass) (there : p.instances[j]? = some inst) :
    ∃ inst', (p.step warsaw event).1.instances[j]? = some inst' ∧
      Moves warsaw passes inst inst' (seen j (p.step warsaw event).2) := by
  have effect := step_effect warsaw p event
  generalize (p.step warsaw event).1 = p', (p.step warsaw event).2 = out at effect
  have counted {p : Process} {inner : OpLogInner} {more : List OpLogMessage} (i : Nat) (f : Nat → Nat)
      (there : p.instances[j]? = some { inst with inner }) (grown : Grown inst.inner inner more) :
      ∃ inst', (p.modify i fun inst => { inst with strong := f inst.strong }).instances[j]? =
        some inst' ∧ Moves warsaw passes inst inst' ⟨more, [], [], false⟩ := by
    rw [get?_modify, there, Option.map_some]
    split
    · exact ⟨_, rfl, .called (f inst.strong) inner more grown⟩
    · exact ⟨_, rfl, .called inst.strong inner more grown⟩
  cases effect with
  | called _ _ called => exact moves_called warsaw passes called there
  | made =>
    have bound := (List.getElem?_eq_some_iff.mp there).1
    exact ⟨inst, (List.getElem?_append_left bound).trans there, moves_refl warsaw passes inst⟩
  | cloned handle i held => exact counted i (· + 1) there (List.append_nil _).symm
  | dropped handle i held => exact counted i (· - 1) there (List.append_nil _).symm
  | installed handle i name p' out held unset called =>
    obtain ⟨inner, there', grown⟩ := called.queues j inst there
    rw [called.quiet]
    exact counted i (· + 1) there' grown
  | taken unset => exact ⟨inst, there, moves_refl warsaw passes inst⟩
  | worked i mine task own isTask =>
    exact moves_task warsaw own task (fun same pass done => made task pass (same ▸ isTask) done) there

/-! ## What a move leaves of the loop -/

variable {warsaw}

/-- Only without references a channel is found closed. -/
theorem moves_closed {inst inst' : Instance} {i : Nat} {out : List ProcessOutput}
    (moves : Moves warsaw passes inst inst' (seen i out)) (closed : closedBy i out = true) :
    inst.strong = 0 := by
  have sight : (seen i out).closed = true := closed
  generalize seen i out = sight at moves sight
  cases moves with
  | closed running empty unreferenced => exact unreferenced
  | _ => cases sight

theorem flushing_has_left : WorkerTask.flushing ≠ .running := by decide

theorem finished_has_left : WorkerTask.finished ≠ .running := by decide

/-- What has left its loop does not come back. -/
theorem moves_left {inst inst' : Instance} {sight : Seen}
    (moves : Moves warsaw passes inst inst' sight) (left : inst.task ≠ .running) : inst'.task ≠ .running := by
  cases moves with
  | called strong inner more grown => exact left
  | ticked disk event done inner more unasked worked made grown => exact left
  | received disk env msg tx done inner more running going isNext worked made grown => exact left
  | stopped tx running isNext => exact flushing_has_left
  | closed running empty unreferenced => exact flushing_has_left
  | ended disk env done inner more flushing worked made => exact finished_has_left

theorem recv_queue {tx tx' : Channel} {msg : OpLogMessage} (isNext : tx.recv = some (msg, tx')) :
    tx.queue = msg :: tx'.queue := by
  unfold Channel.recv at isNext
  split at isNext
  · cases isNext
  · cases isNext
    assumption

/-- As long as the loop goes on, the queue grows by what is accepted and shrinks by what is
received. -/
theorem moves_queue {inst inst' : Instance} {sight : Seen}
    (moves : Moves warsaw passes inst inst' sight) :
    inst'.task ≠ .running ∨ inst'.inner.tx.queue.length + sight.received.length =
      inst.inner.tx.queue.length + sight.accepted.length := by
  cases moves with
  | called strong inner more grown =>
    right
    rw [show inner.tx.queue = _ from grown]
    simp
  | ticked disk event done inner more unasked worked made grown =>
    right
    rw [show inner.tx.queue = _ from grown]
    simp
  | received disk env msg tx done inner more running going isNext worked made grown =>
    right
    rw [show inner.tx.queue = _ from grown, recv_queue isNext]
    simp only [List.length_append, List.length_cons, List.length_nil]
    omega
  | stopped tx running isNext => exact Or.inl flushing_has_left
  | closed running empty unreferenced => exact Or.inl flushing_has_left
  | ended disk env done inner more flushing worked made => exact Or.inl finished_has_left

variable (warsaw) in
/-- A poll of the channel gets a message, or finds the channel closed if nothing refers to it. -/
theorem recv_gets (p : Process) (i : Nat) (inst : Instance) (env : MessageEnv) (utcNow : DateTimeUtc)
    (unreferenced : inst.strong = 0) :
    0 < (receivedBy i (p.recv warsaw i inst env utcNow).2).length ∨
      closedBy i (p.recv warsaw i inst env utcNow).2 = true := by
  have message (msg : OpLogMessage) (out : List ProcessOutput) :
      0 < (receivedBy i (.received i msg :: out)).length := by
    simp [receivedBy]
  unfold Process.recv
  split
  · rw [if_pos unreferenced]
    exact Or.inr (by simp [closedBy])
  · exact Or.inl (message _ _)
  · exact Or.inl (message _ _)

theorem moves_found_closed {inst inst' : Instance} {i : Nat} {out : List ProcessOutput}
    (moves : Moves warsaw passes inst inst' (seen i out)) (closed : closedBy i out = true) :
    inst'.task ≠ .running := by
  have sight : (seen i out).closed = true := closed
  generalize seen i out = sight at moves sight
  cases moves with
  | closed running empty unreferenced => exact flushing_has_left
  | _ => cases sight

variable (warsaw) in
/-- The flush behind the loop is one of the worker on the disk as it is. -/
theorem lastFlush_ends {p : Process} {i : Nat} {inst : Instance} (own : p.instances[i]? = some inst)
    (flushing : inst.task = .flushing) (env : OpLogWorker.FlushEnv) (utcNow : DateTimeUtc) :
    let done := p.step warsaw (.task i (.lastFlush env utcNow))
    let flushed := inst.worker.flush warsaw env p.disk
    (∃ inner, done.1.instances[i]? =
      some { inst with inner, task := .finished, worker := flushed.1 }) ∧
      outsOf i done.2 = flushed.2.2.map .pass := by
  intro done flushed
  have step : done = p.lastFlush warsaw i inst env utcNow := by
    simp only [done, Process.step, own, Process.task, flushing, if_true]
  have called := called_report p [(utcNow, "flush()")]
  rw [step]
  unfold Process.lastFlush
  generalize p.report [(utcNow, "flush()")] = reported at called
  obtain ⟨p', lines⟩ := reported
  dsimp only at called ⊢
  have disk : p'.disk = p.disk := called.disk
  obtain ⟨inner, there', -⟩ := called.queues i inst own
  have quiet := called.quiet i
  injection quiet with _ _ silent _
  rw [disk, get?_modify, there', Option.map_some, if_pos rfl, outsOf_append, silent]
  refine ⟨⟨_, rfl⟩, ?_⟩
  simp [outsOf, World.flush, flushed]

end Warsaw
end OpLog.Guarantees.Instances
