import OpLog.Guarantees.Accepted
import OpLog.Guarantees.References
import OpLog.Library.Response

/-!
# How long a worker lives

A worker task ends by itself exactly when nothing refers to its instance any more: no live
handle, and not the global logger. A `def_system_log` that comes too late leaves no reference
behind; the one that won keeps its worker alive for good. Dropping the last reference is a
shutdown as well: the task still receives everything its channel accepted, and flushes.
-/
namespace OpLog.Guarantees.Handles
open Library Source Accepted Delivery Drain Instances

section Warsaw
variable {warsaw : DateTimeUtc → LocalDateTime}

/-! ## The books of an instance -/

structure Served (passes : PassEnv → Prop) (i : Nat) (inst : Instance) (past : List ProcessOutput) :
    Prop where
  queue : inst.task ≠ .finished → acceptedBy i past = receivedBy i past ++ inst.inner.tx.queue
  entries : logged (outsOf i past) = (receivedBy i past).flatMap entriesOf
  balanced : Balanced passes inst.worker (outsOf i past)
  left : inst.task ≠ .running → closedBy i past = true ∨ .stopService ∈ receivedBy i past
  closed : closedBy i past = true → inst.task ≠ .running ∧ acceptedBy i past = receivedBy i past

theorem logged_append (past more : List Output) : logged (past ++ more) = logged past ++ logged more :=
  List.filterMap_append

/-- A tick passes nothing on. -/
theorem logged_tick (s : World) (event : Event) (unasked : ∀ env msg, event ≠ .message env msg) :
    logged (s.step warsaw event).2 = [] := by
  cases event with
  | writerTick env => rfl
  | cleanupTick now deleted completed => rfl
  | message env msg => exact absurd rfl (unasked env msg)

/-- Whatever an instance goes through, its books stay in order. -/
theorem served_moves {passes : PassEnv → Prop} {i : Nat} {inst inst' : Instance}
    {past out : List ProcessOutput} (served : Served passes i inst past)
    (moves : Moves warsaw passes inst inst' (seen i out))
    (silent : closedBy i past = true → acceptedBy i out = []) :
    Served passes i inst' (past ++ out) := by
  obtain ⟨queue, entries, balanced, left, closed⟩ := served
  have unclosed (running : inst.task = .running) : closedBy i past = false := by
    by_contra some
    exact (closed (by simpa using some)).1 running
  obtain ⟨accepted', received', outs', closed'⟩ : acceptedBy i out = (seen i out).accepted ∧
      receivedBy i out = (seen i out).received ∧ outsOf i out = (seen i out).outs ∧
      closedBy i out = (seen i out).closed := ⟨rfl, rfl, rfl, rfl⟩
  generalize seen i out = sight at moves accepted' received' outs' closed'
  cases moves with
  | called strong inner more grown =>
    dsimp only at accepted' received' outs' closed'
    constructor <;> simp only [acceptedBy_append, receivedBy_append, outsOf_append, closedBy_append,
      received', outs', closed', List.append_nil, Bool.or_false]
    · intro unfinished
      rw [queue unfinished, accepted', show inner.tx.queue = _ from grown, List.append_assoc]
    · exact entries
    · exact balanced
    · exact left
    · intro before
      rw [silent before, List.append_nil]
      exact closed before
  | ticked disk event done inner more unasked worked made grown =>
    dsimp only at accepted' received' outs' closed'
    subst worked
    constructor <;> simp only [acceptedBy_append, receivedBy_append, outsOf_append, closedBy_append,
      received', outs', closed', List.append_nil, Bool.or_false]
    · intro unfinished
      rw [queue unfinished, accepted', show inner.tx.queue = _ from grown, List.append_assoc]
    · rw [logged_append, logged_tick _ event unasked, List.append_nil]
      exact entries
    · exact step_balanced ⟨inst.worker, disk⟩ event _ made balanced
    · exact left
    · intro before
      rw [silent before, List.append_nil]
      exact closed before
  | received disk env msg tx done inner more running going isNext worked made grown =>
    dsimp only at accepted' received' outs' closed'
    subst worked
    constructor <;> simp only [acceptedBy_append, receivedBy_append, outsOf_append, closedBy_append,
      received', outs', closed', Bool.or_false]
    · intro unfinished
      rw [queue unfinished, accepted', recv_queue isNext, show inner.tx.queue = _ from grown]
      simp
    · rw [logged_append, List.flatMap_append, List.flatMap_singleton, entries]
      exact congrArg _ (logged_onMessage warsaw ⟨inst.worker, disk⟩ env msg)
    · refine step_balanced ⟨inst.worker, disk⟩ (.message env msg) _ ?_ balanced
      intro pass done
      obtain ⟨n, rfl⟩ := done
      exact made n
    · exact fun ended => absurd running ended
    · intro before
      rw [unclosed running] at before
      cases before
  | stopped tx running isNext =>
    dsimp only at accepted' received' outs' closed'
    constructor <;> simp only [acceptedBy_append, receivedBy_append, outsOf_append, closedBy_append,
      accepted', received', outs', closed', List.append_nil, Bool.or_false]
    · intro _
      rw [queue (by rw [running]; decide), recv_queue isNext]
      simp
    · rw [entries]
      simp [entriesOf]
    · exact balanced
    · exact fun _ => Or.inr (by simp)
    · intro before
      rw [unclosed running] at before
      cases before
  | closed running empty unreferenced =>
    dsimp only at accepted' received' outs' closed'
    have all := queue (by rw [running]; decide)
    rw [empty, List.append_nil] at all
    constructor <;> simp only [acceptedBy_append, receivedBy_append, outsOf_append, closedBy_append,
      accepted', received', outs', closed', List.append_nil, Bool.or_true]
    · intro _
      rw [empty, List.append_nil]
      exact all
    · exact entries
    · exact balanced
    · exact fun _ => Or.inl trivial
    · exact fun _ => ⟨flushing_has_left, all⟩
  | ended disk env done inner more flushing worked made =>
    dsimp only at accepted' received' outs' closed'
    subst worked
    constructor <;> simp only [acceptedBy_append, receivedBy_append, outsOf_append, closedBy_append,
      received', outs', closed', List.append_nil, Bool.or_false]
    · exact fun unfinished => absurd rfl unfinished
    · rw [logged_append, logged_flush, List.append_nil]
      exact entries
    · exact balanced_flush warsaw env made balanced
    · exact fun _ => left (flushing ▸ flushing_has_left)
    · intro before
      rw [silent before, List.append_nil]
      exact ⟨finished_has_left, (closed before).2⟩

/-- The books of all instances; what has found its channel closed is not referred to. -/
structure InOrder (passes : Nat → PassEnv → Prop) (p : Process) (past : List ProcessOutput) : Prop where
  counted : Counted p
  known : ∀ o ∈ past, about o < p.instances.length
  served : ∀ i inst, p.instances[i]? = some inst → Served (passes i) i inst past
  unreferenced : ∀ i, closedBy i past = true → i < p.instances.length ∧ references p i = 0

theorem served_new {passes : PassEnv → Prop} {i : Nat} {past : List ProcessOutput}
    (others : ∀ out ∈ past, about out ≠ i) : Served passes i ⟨1, ⟨.empty, true, 0⟩, .running, .new⟩ past := by
  have nothing := seen_nothing i past others
  injection nothing with accepted received outs closed
  refine ⟨fun _ => ?_, ?_, ?_, fun ended => absurd rfl ended, fun before => ?_⟩
  · rw [accepted, received]
    rfl
  · rw [outs, received]
    rfl
  · rw [outs]
    exact fun _ _ => ledger_start
  · rw [closed] at before
    cases before

theorem step_inOrder {passes : Nat → PassEnv → Prop} (p : Process) (event : ProcessEvent)
    (past : List ProcessOutput)
    (made : ∀ i task pass, event = .task i task → TaskPasses task pass → passes i pass)
    (inOrder : InOrder passes p past) :
    InOrder passes (p.step warsaw event).1 (past ++ (p.step warsaw event).2) := by
  obtain ⟨counted, known, served, unreferenced⟩ := inOrder
  have fits := step_fits warsaw p event
  have length := step_length warsaw p event
  have moved {i : Nat} {inst : Instance} (there : p.instances[i]? = some inst) :
      ∃ inst', (p.step warsaw event).1.instances[i]? = some inst' ∧
        Served (passes i) i inst' (past ++ (p.step warsaw event).2) := by
    obtain ⟨inst', there', moves⟩ := step_moves warsaw p event (made i) there
    exact ⟨inst', there', served_moves (served i inst there) moves fun before =>
      fits.silent i (unreferenced i before).2⟩
  refine ⟨step_counted warsaw p event counted, ?_, ?_, ?_⟩
  · intro o member
    rcases List.mem_append.mp member with before | now
    · exact Nat.lt_of_lt_of_le (known o before) length.1
    · exact Nat.lt_of_lt_of_le (fits.known o now) length.1
  · intro i inst there
    by_cases old : i < p.instances.length
    · obtain ⟨inst', there', served'⟩ := moved (List.getElem?_eq_getElem old)
      rw [there] at there'
      cases there'
      exact served'
    · obtain rfl := length.2 i inst (Nat.le_of_not_lt old) there
      apply served_new
      intro o member
      rcases List.mem_append.mp member with before | now
      · exact Nat.ne_of_lt (Nat.lt_of_lt_of_le (known o before) (Nat.le_of_not_lt old))
      · exact Nat.ne_of_lt (Nat.lt_of_lt_of_le (fits.known o now) (Nat.le_of_not_lt old))
  · intro i closed
    rw [closedBy_append, Bool.or_eq_true] at closed
    rcases closed with before | now
    · obtain ⟨old, none⟩ := unreferenced i before
      exact ⟨Nat.lt_of_lt_of_le old length.1, step_unreferenced warsaw p event old none⟩
    · have old : i < p.instances.length := by
        by_contra beyond
        have nothing := seen_nothing i _ fun o member =>
          Nat.ne_of_lt (Nat.lt_of_lt_of_le (fits.known o member) (Nat.le_of_not_lt beyond))
        injection nothing with _ _ _ unclosed
        rw [unclosed] at now
        cases now
      have there := List.getElem?_eq_getElem old
      obtain ⟨inst', -, moves⟩ := step_moves warsaw p event (made i) there
      have strong := moves_closed moves now
      rw [counted.counts i _ there] at strong
      exact ⟨Nat.lt_of_lt_of_le old length.1, step_unreferenced warsaw p event old strong⟩

variable (warsaw) in
theorem run_inOrder (disk : Disk) (events : List ProcessEvent) :
    let r := Machine.run (Process.step warsaw) (.start disk) events
    InOrder (passesBy · events) r.1 r.2 := by
  have start : InOrder (passesBy · events) (.start disk) [] := by
    refine ⟨⟨fun i inst there => ?_, fun i _ => rfl⟩, fun o member => ?_, fun i inst there => ?_,
      fun i closed => ?_⟩
    · cases there
    · cases member
    · cases there
    · cases closed
  refine Machine.run_invariant (InOrder (passesBy · events))
    (fun p event past made inOrder => step_inOrder p event past made inOrder)
    (.start disk) [] start events ?_
  refine Machine.allowed_of_forall _ _ fun event member _ i task pass isTask done => ?_
  exact ⟨task, isTask ▸ member, done⟩

/-! ## The end of a worker -/

/-- Polls of the channel by the task of the instance. -/
def receives (i : Nat) : ProcessEvent → Bool
  | .task inst (.recv _ _) => decide (inst = i)
  | _ => false

/-- What is still to be polled before the loop of an instance is left. -/
def toPoll (i : Nat) (p : Process) : Nat :=
  match p.instances[i]? with
  | some inst => inst.inner.tx.queue.length + 1
  | none => 0

def HasLeft (i : Nat) (p : Process) : Prop :=
  ∃ inst, p.instances[i]? = some inst ∧ inst.task ≠ .running

theorem step_left (p : Process) (event : ProcessEvent) {i : Nat} (left : HasLeft i p) :
    HasLeft i (p.step warsaw event).1 := by
  obtain ⟨inst, there, ended⟩ := left
  obtain ⟨inst', there', moves⟩ := step_moves warsaw p event (fun _ _ _ _ => trivial) there
  exact ⟨inst', there', moves_left moves ended⟩

/-- Nothing refers to the instance any more, and its books are in order. -/
structure Forgotten (i : Nat) (p : Process) : Prop where
  counted : Counted p
  there : i < p.instances.length
  unreferenced : references p i = 0

theorem step_forgotten (p : Process) (event : ProcessEvent) {i : Nat} (forgotten : Forgotten i p) :
    Forgotten i (p.step warsaw event).1 where
  counted := step_counted warsaw p event forgotten.counted
  there := Nat.lt_of_lt_of_le forgotten.there (step_length warsaw p event).1
  unreferenced := step_unreferenced warsaw p event forgotten.there forgotten.unreferenced

/-- A queue that nobody fills gets shorter with every poll. -/
theorem step_polls (p : Process) (event : ProcessEvent) {i : Nat} (forgotten : Forgotten i p)
    (going : ¬ HasLeft i p) :
    HasLeft i (p.step warsaw event).1 ∨
      toPoll i (p.step warsaw event).1 + (if receives i event then 1 else 0) ≤ toPoll i p := by
  obtain ⟨inst, there⟩ : ∃ inst, p.instances[i]? = some inst :=
    ⟨_, List.getElem?_eq_getElem forgotten.there⟩
  have running : inst.task = .running := by
    by_contra ended
    exact going ⟨inst, there, ended⟩
  obtain ⟨inst', there', moves⟩ := step_moves warsaw p event (fun _ _ _ _ => trivial) there
  rcases moves_queue moves with ended | balance
  · exact Or.inl ⟨inst', there', ended⟩
  have silent : (seen i (p.step warsaw event).2).accepted = [] :=
    (step_fits warsaw p event).silent i forgotten.unreferenced
  rw [silent, List.length_nil, Nat.add_zero] at balance
  have shorter : toPoll i (p.step warsaw event).1 + (seen i (p.step warsaw event).2).received.length =
      toPoll i p := by
    unfold toPoll
    rw [there, there']
    dsimp only
    omega
  by_cases turn : receives i event = true
  · rw [if_pos turn]
    obtain ⟨env, utcNow, rfl⟩ : ∃ env utcNow, event = .task i (.recv env utcNow) := by
      unfold receives at turn
      split at turn
      · rw [of_decide_eq_true turn]
        exact ⟨_, _, rfl⟩
      · cases turn
    have poll : (p.step warsaw (.task i (.recv env utcNow))).2 =
        (p.recv warsaw i inst env utcNow).2 := by
      simp only [Process.step, there, Process.task, running, if_true]
    have strong := (forgotten.counted.counts i inst there).trans forgotten.unreferenced
    rcases recv_gets warsaw p i inst env utcNow strong with message | closed
    · rw [← poll] at message
      have some : 0 < (seen i (p.step warsaw (.task i (.recv env utcNow))).2).received.length := message
      right
      omega
    · rw [← poll] at closed
      exact Or.inl ⟨inst', there', moves_found_closed moves closed⟩
  · rw [if_neg turn]
    right
    omega

variable (warsaw) in
/-- In every process: the strong count of an instance is the number of its live handles, and one
more if it is the global logger's; a loop is left on a stop, or when nothing refers to the
instance and all it accepted has been received; and once nothing refers to it, as many polls as
it has messages queued and one more end its loop. -/
theorem worker_ends_unreferenced (disk : Disk) (events : List ProcessEvent) (i : Nat)
    (inst : Instance) :
    let r := Machine.run (Process.step warsaw) (.start disk) events
    r.1.instances[i]? = some inst →
    inst.strong = references r.1 i ∧
      (inst.task ≠ .running → .stopService ∈ receivedBy i r.2 ∨
        references r.1 i = 0 ∧ acceptedBy i r.2 = receivedBy i r.2) ∧
      (references r.1 i = 0 → ∀ more,
        inst.inner.tx.queue.length < Machine.turns (receives i) more →
          HasLeft i (Machine.run (Process.step warsaw) r.1 more).1) := by
  intro r there
  have inOrder := run_inOrder warsaw disk events
  have served := inOrder.served i inst there
  refine ⟨inOrder.counted.counts i inst there, fun ended => ?_, fun unreferenced more enough => ?_⟩
  · rcases served.left ended with closed | stop
    · exact Or.inr ⟨(inOrder.unreferenced i closed).2, (served.closed closed).2⟩
    · exact Or.inl stop
  · have forgotten : Forgotten i r.1 :=
      ⟨inOrder.counted, (List.getElem?_eq_some_iff.mp there).1, unreferenced⟩
    have allowed : Machine.Allowed (Process.step warsaw) (fun _ _ => True) r.1 more :=
      Machine.allowed_of_forall _ _ fun _ _ _ => trivial
    refine Machine.run_within (fun p _ => Forgotten i p)
      (fun p _ => HasLeft i p) (fun p _ => toPoll i p) (receives i)
      (fun p event _ _ forgotten => step_forgotten p event forgotten)
      (fun p event _ _ _ left => step_left p event left)
      (fun p event _ _ forgotten going => step_polls p event forgotten going) ?_ r.1 [] forgotten more
      allowed (Or.inr ?_)
    · intro p _ forgotten _
      unfold toPoll
      rw [List.getElem?_eq_getElem forgotten.there]
      exact Nat.succ_pos _
    · unfold toPoll
      rw [there]
      exact enough

/-- A definition and an entry, and the only handle dropped behind them. -/
def droppedHandle : List ProcessEvent :=
  [.new, .send 0 (.logDefinition plainOpLogDefinition), .log 0 ⟨"a", "one", 0⟩, .drop 0]

def polls : List ProcessEvent := List.replicate 3 (.task 0 (.recv ⟨0, flushEnv⟩ 0))

theorem worker_ends_unreferenced_dropped :
    HasLeft 0 (Machine.run (Process.step warsawAtEpoch) (.start fun _ => none)
      (droppedHandle ++ polls)).1 := by
  rw [Machine.run_append]
  exact (worker_ends_unreferenced warsawAtEpoch (fun _ => none) droppedHandle 0
    ⟨0, ⟨⟨[.logDefinition plainOpLogDefinition, .log ⟨"a", "one", 0⟩], 0, false⟩, true, 0⟩, .running,
      .new⟩ rfl).2.2 (by decide) polls (by decide)

variable (warsaw) in
/-- A worker whose channel was closed has passed on every entry the channel accepted, in order;
if the flush behind its loop then succeeds in time, each of those whose name was registered is
in a written frame or in the count of a written notice. -/
theorem dropped_handles_settle (disk : Disk) (events : List ProcessEvent) (i : Nat)
    (inst : Instance) :
    let r := Machine.run (Process.step warsaw) (.start disk) events
    r.1.instances[i]? = some inst → closedBy i r.2 = true →
    logged (outsOf i r.2) = (acceptedBy i r.2).flatMap entriesOf ∧
      ∀ env utcNow, inst.task = .flushing →
        let flushed := inst.worker.flush warsaw env r.1.disk
        (∀ attempts ∈ flushed.2.2, Succeeds attempts) →
        flushed.2.2.length ≤ env.deadline ∨ Bounded inst.worker (env.deadline + 1) →
        let done := r.1.step warsaw (.task i (.lastFlush env utcNow))
        ∃ inst', done.1.instances[i]? = some inst' ∧ inst'.task = .finished ∧
          (∀ name key f, inst'.worker.file? name key = some f → f.logs = []) ∧
          ∀ name key, Settled
            (attemptsOf (passesBy i (events ++ [.task i (.lastFlush env utcNow)])) name key)
            (routed name key (outsOf i r.2)) (framesOf name key (outsOf i (r.2 ++ done.2))) := by
  intro r there closed
  have served := (run_inOrder warsaw disk events).served i inst there
  constructor
  · rw [(served.closed closed).2]
    exact served.entries
  · intro env utcNow flushing flushed succeeds inTime done
    obtain ⟨⟨inner, there'⟩, outs⟩ := lastFlush_ends warsaw there flushing env utcNow
    have balanced : Balanced (passesBy i (events ++ [.task i (.lastFlush env utcNow)])) inst.worker
        (outsOf i r.2) := by
      refine balanced_mono (fun pass made => ?_) served.balanced
      obtain ⟨task, member, made⟩ := made
      exact ⟨task, List.mem_append_left _ member, made⟩
    obtain ⟨empty, settled⟩ := flush_settles balanced env
      (fun n => ⟨.lastFlush env utcNow, by simp, n, rfl⟩) r.1.disk succeeds inTime
    refine ⟨_, there', rfl, empty, fun name key => ?_⟩
    rw [outsOf_append, outs]
    exact settled name key

def leftRun : Process × List ProcessOutput :=
  Machine.run (Process.step warsawAtEpoch) (.start fun _ => none) (droppedHandle ++ polls)

theorem leftRun_there : leftRun.1.instances[0]?.isSome = true := by decide +kernel

def leftInstance : Instance := Option.get _ leftRun_there

theorem dropped_handles_settle_one :
    logged (outsOf 0 leftRun.2) = [⟨"a", "one", 0⟩] ∧
      ∃ written, Settled (attemptsOf (passesBy 0 (droppedHandle ++ polls ++
        [.task 0 (.lastFlush flushEnv 0)])) "a" "logs/a.log")
          (routed "a" "logs/a.log" (outsOf 0 leftRun.2)) written := by
  have succeeds : ∀ attempts ∈ (leftInstance.worker.flush warsawAtEpoch flushEnv leftRun.1.disk).2.2,
      Succeeds attempts := by
    unfold Succeeds
    decide +kernel
  obtain ⟨entries, settles⟩ :=
    dropped_handles_settle warsawAtEpoch (fun _ => none) (droppedHandle ++ polls) 0
      leftInstance (Option.some_get _).symm (by decide +kernel)
  obtain ⟨-, -, -, -, settled⟩ := settles flushEnv 0 (by decide +kernel) succeeds
    (Or.inl (by decide +kernel))
  exact ⟨entries.trans (by decide +kernel), _, settled "a" "logs/a.log"⟩

/-! ## The system logger -/

variable (warsaw) in
/-- The first `def_system_log` decides for good which instance gets the lines of the `log` macros,
and under which name; its worker is not ended by dropped handles. Later calls only register
their definition, and a record up to `Info` is one `send_log`. -/
theorem first_system_log_decides (disk : Disk) (before after : List ProcessEvent) (handle i : Nat)
    (d : OpLogDefinition) :
    let p := (Machine.run (Process.step warsaw) (.start disk) before).1
    let r := Machine.run (Process.step warsaw) (.start disk) (before ++ .defSystemLog handle d :: after)
    p.held handle = some i → p.logger = none →
    r.1.logger = some (.opLog ⟨i, d.logName⟩) ∧ 0 < references r.1 i ∧ closedBy i r.2 = false ∧
      (∀ handle' d', r.1.step warsaw (.defSystemLog handle' d') =
        r.1.step warsaw (.send handle' (.logDefinition d'))) ∧
      ∀ level date args, r.1.step warsaw (.record level date args) =
        if level.toNat ≤ min r.1.maxLevel Level.info.toNat then
          r.1.call i (·.sendLog CHANNEL_CAPACITY
            ⟨d.logName, "[" ++ level.asStr ++ "] " ++ args, date⟩)
        else (r.1, []) := by
  intro p r held unset
  have installed : (p.step warsaw (.defSystemLog handle d)).1.logger =
      some (.opLog ⟨i, d.logName⟩) := by
    have called := called_call (p := p) _ (grows_send (.logDefinition d)) (held_referenced held)
    have unset' := called.logger.trans unset
    simp only [Process.step, held, Process.defSystemLog, Process.retain, Process.modify, unset']
  have set : r.1.logger = some (.opLog ⟨i, d.logName⟩) := by
    have later := run_logger warsaw after installed
    simp only [r, Machine.run_append, Machine.run_cons]
    exact later
  have referenced : 0 < references r.1 i := logger_referenced set
  refine ⟨set, referenced, ?_, fun handle' d' => ?_, fun level date args => ?_⟩
  · by_contra closed
    have none := ((run_inOrder warsaw disk _).unreferenced i (by simpa using closed)).2
    exact absurd none (Nat.pos_iff_ne_zero.mp referenced)
  · unfold Process.step
    dsimp only
    split
    · exact defSystemLog_late (by rw [set]; simp) _ d'
    · rfl
  · simp only [Process.step, Process.record, set, OpLogSystemLogger.entry]
    by_cases low : level.toNat ≤ r.1.maxLevel
    · by_cases quiet : level.toNat > Level.info.toNat
      · rw [if_pos low, if_pos quiet, if_neg (by omega)]
      · rw [if_pos low, if_neg quiet, if_pos (by omega)]
    · rw [if_neg low, if_neg (by omega)]

/-- Its handle is dropped, and a second instance comes too late. -/
def afterInstall : List ProcessEvent :=
  [.drop 0, .new, .defSystemLog 1 plainOpLogDefinition, .record .warn 0 "late", .drop 1]

theorem first_system_log_decides_late :
    let r := Machine.run (Process.step warsawAtEpoch) (.start fun _ => none)
      ([.new] ++ .defSystemLog 0 { plainOpLogDefinition with logName := "system" } :: afterInstall)
    r.1.logger = some (.opLog ⟨0, "system"⟩) ∧ closedBy 0 r.2 = false := by
  obtain ⟨set, -, unclosed, -⟩ := first_system_log_decides warsawAtEpoch (fun _ => none) [.new]
    afterInstall 0 0 { plainOpLogDefinition with logName := "system" } (by decide) (by rfl)
  exact ⟨set, unclosed⟩

end Warsaw
end OpLog.Guarantees.Handles
