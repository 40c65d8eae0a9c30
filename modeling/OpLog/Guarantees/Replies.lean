import OpLog.Guarantees.Accepted
import OpLog.Guarantees.Shutdown
import OpLog.Library.Response
import OpLog.Source.GetInfo

/-!
# The replies to `get_info`

Calls in any interleaving with the worker, with calls of `shutdown` and with other senders.
Every call whose message was accepted is in the queue, or was answered, or was lost with the
queue at the end of the task, each of them once and in the order of the messages. And a reply
comes behind everything that was sent before its call: handled, counted, and, if the flush
succeeds, written.
-/
namespace OpLog.Guarantees.Replies
open Library Source Accepted

/-! ## Histories -/

/-- The calls whose messages were accepted. -/
def sentCalls (history : List AskOutput) : List Nat :=
  history.filterMap fun
    | .sent call => some call
    | _ => none

def received (history : List AskOutput) : List OpLogMessage :=
  history.filterMap fun
    | .received msg => some msg
    | _ => none

def replies (history : List AskOutput) : List (Nat × OpLogInfo) :=
  history.filterMap fun
    | .reply call info => some (call, info)
    | _ => none

def lostCalls (history : List AskOutput) : List Nat :=
  history.filterMap fun
    | .lost call => some call
    | _ => none

def outs (history : List AskOutput) : List Output :=
  history.filterMap fun
    | .out output => some output
    | _ => none

section Append
variable (past more : List AskOutput) (output : List Output) (calls : List Nat)

@[simp] theorem sentCalls_append : sentCalls (past ++ more) = sentCalls past ++ sentCalls more :=
  List.filterMap_append

@[simp] theorem received_append : received (past ++ more) = received past ++ received more :=
  List.filterMap_append

@[simp] theorem replies_append : replies (past ++ more) = replies past ++ replies more :=
  List.filterMap_append

@[simp] theorem lostCalls_append : lostCalls (past ++ more) = lostCalls past ++ lostCalls more :=
  List.filterMap_append

@[simp] theorem outs_append : outs (past ++ more) = outs past ++ outs more := List.filterMap_append

/-- What the worker puts out is nothing else. -/
@[simp] theorem of_output : sentCalls (output.map .out) = [] ∧ received (output.map .out) = [] ∧
    replies (output.map .out) = [] ∧ lostCalls (output.map .out) = [] ∧
    outs (output.map .out) = output := by
  induction output with
  | nil => exact ⟨rfl, rfl, rfl, rfl, rfl⟩
  | cons o rest ih =>
    obtain ⟨sent, received, replies, lost, out⟩ := ih
    exact ⟨sent, received, replies, lost, congrArg (o :: ·) out⟩

@[simp] theorem of_lost : sentCalls (calls.map .lost) = [] ∧ received (calls.map .lost) = [] ∧
    replies (calls.map .lost) = [] ∧ lostCalls (calls.map .lost) = calls ∧
    outs (calls.map .lost) = [] := by
  induction calls with
  | nil => exact ⟨rfl, rfl, rfl, rfl, rfl⟩
  | cons call rest ih =>
    obtain ⟨sent, received, replies, lost, out⟩ := ih
    exact ⟨sent, received, replies, congrArg (call :: ·) lost, out⟩

end Append

/-! ## One step -/

section Warsaw
variable (warsaw : DateTimeUtc → LocalDateTime)

/-- What an event does to the calls, to what they share and to the worker's channel. -/
inductive AskStep (s : Asking) : AskEvent → Asking → List AskOutput → Prop where
  | sent (call : Nat) (created : s.calls[call]? = some .created) (tx : Channel)
      (queue : tx.queue = s.tx.queue ++ [.getInfoAndFlush])
      (isOpen : s.tx.closed = false ∧ tx.closed = false) :
      AskStep s (.poll call)
        { s.withTx tx with senders := s.senders ++ [call], calls := s.calls.set call .waiting }
        [.sent call]
  | refused (call : Nat) (created : s.calls[call]? = some .created) :
      AskStep s (.poll call) { s with calls := s.calls.set call (.returned none) } []
  | returned (call : Nat) (reply : Option OpLogInfo)
      (settled : s.calls[call]? = some (.settled reply)) :
      AskStep s (.poll call) { s with calls := s.calls.set call (.returned reply) } []
  | dropped (call : Nat) :
      AskStep s (.drop call) { s with calls := s.calls.modify call GetInfo.drop } []
  | around (event : AskEvent) (system : ShuttingDown) (more : List OpLogMessage)
      (unasked : .getInfoAndFlush ∉ more)
      (queue : system.shared.inner.tx.queue = s.tx.queue ++ more)
      (closed : system.shared.inner.tx.closed = s.tx.closed)
      (task : system.shared.task = s.system.shared.task) (out : List Output)
      (silent : logged out = []) : AskStep s event { s with system } (out.map .out)
  | received (env : MessageEnv) (system : ShuttingDown) (msg : OpLogMessage)
      (unasked : msg = .getInfoAndFlush → s.senders = [])
      (queue : s.tx.queue = msg :: system.shared.inner.tx.queue)
      (task : s.system.shared.task = .running ∧ system.shared.task ≠ .finished) (out : List Output)
      (entries : logged out = entriesOf msg) :
      AskStep s (.service (.recv env)) { s with system } (.received msg :: out.map .out)
  | replied (env : MessageEnv) (system : ShuttingDown) (call : Nat) (senders : List Nat)
      (carried : s.senders = call :: senders)
      (queue : s.tx.queue = .getInfoAndFlush :: system.shared.inner.tx.queue)
      (task : s.system.shared.task = .running ∧ system.shared.task = .running)
      (world : system.shared.world =
        (s.system.shared.world.step warsaw (.message env .getInfoAndFlush)).1) :
      AskStep s (.service (.recv env))
        { system, senders,
          calls := s.calls.modify call (GetInfo.settle (some s.system.shared.world.worker.info)) }
        (.received .getInfoAndFlush ::
          (s.system.shared.world.step warsaw (.message env .getInfoAndFlush)).2.map .out ++
            [.reply call s.system.shared.world.worker.info])
  | ended (env : OpLogWorker.FlushEnv) (system : ShuttingDown)
      (flushing : s.system.shared.task = .flushing)
      (drained : system.shared.inner.tx.closed = true ∧ system.shared.inner.tx.queue = [])
      (task : system.shared.task = .finished) (out : List Output) (silent : logged out = []) :
      AskStep s (.service (.lastFlush env))
        { system
          calls := s.calls.mapIdx fun call place =>
            if call ∈ s.senders then place.settle none else place
          senders := [] }
        (out.map .out ++ s.senders.map .lost)

/-- Nothing happens. -/
theorem idle_effect (s : Asking) (event : AskEvent) : AskStep warsaw s event s [] :=
  .around event s.system [] List.not_mem_nil (List.append_nil _).symm rfl rfl [] rfl

theorem poll_effect (s : Asking) (call : Nat) :
    AskStep warsaw s (.poll call) (s.poll call).1 (s.poll call).2 := by
  unfold Asking.poll
  split
  · rename_i created
    split
    · rename_i tx accepted
      unfold Channel.trySend Channel.room at accepted
      split at accepted
      · rename_i room
        simp only [Bool.and_eq_true, Bool.not_eq_true'] at room
        cases accepted
        exact .sent call created _ rfl ⟨room.1, room.1⟩
      · cases accepted
    · exact .refused call created
  · rename_i reply settled
    exact .returned call reply settled
  · exact idle_effect warsaw s _

theorem recv_effect (s : Asking) (env : MessageEnv) (running : s.system.shared.task = .running) :
    AskStep warsaw s (.service (.recv env)) (s.recv warsaw env).1 (s.recv warsaw env).2 := by
  cases queue : s.tx.queue with
  | nil =>
    simp only [Asking.recv, queue]
    exact idle_effect warsaw s _
  | cons msg rest =>
    have taken : s.system.shared.inner.tx.recv = some (msg, { s.tx with queue := rest }) := by
      unfold Channel.recv
      rw [show s.system.shared.inner.tx.queue = msg :: rest from queue]
      rfl
    by_cases stop : msg = .stopService
    · subst stop
      simp only [Asking.recv, queue, ShuttingDown.step, Service.recv, running, if_true, taken]
      exact .received env _ .stopService (fun other => by cases other) queue
        ⟨running, fun other => by cases other⟩ [] rfl
    · have received : s.system.shared.recv warsaw env =
          ({ s.system.shared with
              inner.tx := { s.tx with queue := rest }
              world := (s.system.shared.world.step warsaw (.message env msg)).1 },
            (s.system.shared.world.step warsaw (.message env msg)).2) := by
        unfold Service.recv
        rw [if_pos running, taken]
        cases msg <;> first | rfl | exact absurd rfl stop
      have entries := logged_onMessage warsaw s.system.shared.world env msg
      simp only [Asking.recv, ShuttingDown.step, received, queue]
      split
      · rename_i empty
        cases empty
      · rename_i same carried
        cases same
        exact .replied env _ _ _ carried queue ⟨running, running⟩ rfl
      · rename_i same notAsked
        cases same
        refine .received env _ msg ?_ queue ⟨running, ?_⟩ _ entries
        · rintro rfl
          cases carried : s.senders with
          | nil => rfl
          | cons call senders => exact (notAsked call senders carried rfl).elim
        · rw [running]
          simp

/-- What the service does when it does not receive and does not end. -/
theorem around_effect (s : Asking) (event : ShutdownEvent)
    (notRecv : ∀ env, event ≠ .recv env) (notEnd : ∀ env, event ≠ .lastFlush env)
    (unasked : event ≠ .other .getInfoAndFlush) :
    AskStep warsaw s (.service event) { s with system := (s.system.step warsaw event).1 }
      ((s.system.step warsaw event).2.map .out) := by
  have ticked (event : Event) (silent : logged (s.system.shared.world.step warsaw event).2 = []) :
      let out := s.system.shared.tick warsaw event
      out.1.inner = s.system.shared.inner ∧ out.1.task = s.system.shared.task ∧ logged out.2 = [] := by
    unfold Service.tick
    split
    · exact ⟨rfl, rfl, silent⟩
    · exact ⟨rfl, rfl, rfl⟩
  cases event with
  | recv env => exact absurd rfl (notRecv env)
  | lastFlush env => exact absurd rfl (notEnd env)
  | poll call =>
    simp only [ShuttingDown.step]
    cases there : s.system.threads[call]? with
    | none =>
      rw [Threads.advance_none there]
      exact idle_effect warsaw s _
    | some thread =>
      obtain ⟨task, -, silent, -⟩ := Shutdown.poll_frame s.system.shared thread
      obtain ⟨more, sends, queue, closed⟩ := Shutdown.poll_channel s.system.shared thread
      rw [Threads.advance_some there, silent]
      refine .around _ _ more ?_ queue closed task [] rfl
      rcases sends with rfl | rfl
      · exact List.not_mem_nil
      · simp
  | drop call =>
    simp only [ShuttingDown.step]
    cases there : s.system.threads[call]? with
    | none =>
      rw [Threads.advance_none there]
      exact idle_effect warsaw s _
    | some thread =>
      obtain ⟨task, -, silent⟩ := Shutdown.drop_frame s.system.shared thread
      obtain ⟨queue, closed⟩ := Shutdown.drop_channel s.system.shared thread
      rw [Threads.advance_some there, silent]
      exact .around _ _ [] List.not_mem_nil (queue.trans (List.append_nil _).symm) closed task [] rfl
  | other msg =>
    have plain : .getInfoAndFlush ∉ [msg] :=
      fun member => unasked (congrArg _ (List.mem_singleton.mp member).symm)
    simp only [ShuttingDown.step, Channel.trySend]
    by_cases room : s.system.shared.inner.tx.room CHANNEL_CAPACITY
    · rw [if_pos room, Option.getD_some]
      let tx := { s.system.shared.inner.tx with queue := s.system.shared.inner.tx.queue ++ [msg] }
      exact .around _ { s.system with shared.inner.tx := tx } [msg] plain rfl rfl rfl [] rfl
    · rw [if_neg room, Option.getD_none]
      exact idle_effect warsaw s _
  | writerTick env =>
    obtain ⟨inner, task, silent⟩ := ticked (.writerTick env) rfl
    exact .around _ _ [] List.not_mem_nil
      ((congrArg (·.tx.queue) inner).trans (List.append_nil _).symm) (congrArg (·.tx.closed) inner)
      task _ silent
  | cleanupTick now deleted completed =>
    obtain ⟨inner, task, silent⟩ := ticked (.cleanupTick now deleted completed) rfl
    exact .around _ _ [] List.not_mem_nil
      ((congrArg (·.tx.queue) inner).trans (List.append_nil _).symm) (congrArg (·.tx.closed) inner)
      task _ silent

theorem lastFlush_effect (s : Asking) (env : OpLogWorker.FlushEnv)
    (flushing : s.system.shared.task = .flushing) :
    AskStep warsaw s (.service (.lastFlush env)) (s.lastFlush warsaw env).1
      (s.lastFlush warsaw env).2 := by
  simp only [Asking.lastFlush, ShuttingDown.step, Service.lastFlush, flushing, if_true]
  exact .ended env _ flushing ⟨rfl, rfl⟩ rfl _ (logged_flush warsaw s.system.shared.world env)

theorem step_effect (s : Asking) (event : AskEvent) :
    AskStep warsaw s event (s.step warsaw event).1 (s.step warsaw event).2 := by
  cases event with
  | poll call => exact poll_effect warsaw s call
  | drop call => exact .dropped call
  | service event =>
    simp only [Asking.step]
    unfold Asking.service
    split
    · split
      · exact recv_effect warsaw s _ ‹_›
      · exact idle_effect warsaw s _
    · split
      · exact lastFlush_effect warsaw s _ ‹_›
      · exact idle_effect warsaw s _
    · exact idle_effect warsaw s _
    · rename_i notRecv notEnd unasked
      exact around_effect warsaw s event notRecv notEnd unasked

/-! ## Once each, and in order -/

/-- Where a call is tells what has become of its message. -/
def Placed (s : Asking) (past : List AskOutput) (call : Nat) : GetInfo → Prop
  | .created => call ∉ sentCalls past
  | .waiting => call ∈ s.senders
  | .settled (some info) | .returned (some info) => (call, info) ∈ replies past
  | .settled none => call ∈ lostCalls past
  | .returned none => call ∈ lostCalls past ∨ call ∉ sentCalls past
  | .dropped => True

/-- The calls sent so far are those answered, those lost and those in the queue, in order; calls
are lost only at the end of the task, where none is left. -/
structure Orderly (s : Asking) (past : List AskOutput) : Prop where
  order : sentCalls past = (replies past).map Prod.fst ++ lostCalls past ++ s.senders
  once : (sentCalls past).Nodup
  carried : s.senders.length = s.tx.queue.count .getInfoAndFlush
  unlost : s.system.shared.task ≠ .finished → lostCalls past = []
  drained : s.system.shared.task = .finished → s.tx.closed = true ∧ s.senders = []
  placed : ∀ call place, s.calls[call]? = some place → Placed s past call place

variable {warsaw} {s : Asking} {past : List AskOutput}

/-- A call moves, and the others stay where they are. -/
theorem placed_set {s' : Asking} {past' : List AskOutput} {call : Nat} {place : GetInfo}
    (moved : Placed s' past' call place)
    (others : ∀ other place, other ≠ call → s.calls[other]? = some place → Placed s' past' other place)
    (calls : s'.calls = s.calls.set call place) (other : Nat) (place' : GetInfo)
    (there : s'.calls[other]? = some place') : Placed s' past' other place' := by
  rw [calls, List.getElem?_set] at there
  by_cases same : call = other
  · rw [if_pos same] at there
    split at there
    · rw [← Option.some.inj there, ← same]
      exact moved
    · cases there
  · rw [if_neg same] at there
    exact others other place' (Ne.symm same) there

/-- Places change, and what they tell with them. -/
theorem placed_map {s' : Asking} {past' : List AskOutput} (change : Nat → GetInfo → GetInfo)
    (calls : ∀ call, s'.calls[call]? = s.calls[call]?.map (change call))
    (kept : ∀ call place, s.calls[call]? = some place → Placed s' past' call (change call place))
    (call : Nat) (place : GetInfo) (there : s'.calls[call]? = some place) :
    Placed s' past' call place := by
  rw [calls] at there
  obtain ⟨before, was, rfl⟩ := Option.map_eq_some_iff.mp there
  exact kept call before was

theorem getElem?_modify_map (calls : List GetInfo) (call other : Nat) (f : GetInfo → GetInfo) :
    (calls.modify call f)[other]? = calls[other]?.map (if call = other then f else id) := by
  rw [List.getElem?_modify]
  split
  · rfl
  · rfl

/-- More has happened to the messages; the sender of a call that waits is still queued. -/
theorem placed_later {s' : Asking} {past more : List AskOutput} {call : Nat} {place : GetInfo}
    (unsent : call ∉ sentCalls more) (queued : place = .waiting → call ∈ s'.senders)
    (placed : Placed s past call place) : Placed s' (past ++ more) call place := by
  cases place with
  | created =>
    rw [Placed, sentCalls_append, List.mem_append]
    exact fun sent => sent.elim placed unsent
  | waiting => exact queued rfl
  | settled reply =>
    cases reply with
    | none =>
      rw [Placed, lostCalls_append]
      exact List.mem_append_left _ placed
    | some info =>
      rw [Placed, replies_append]
      exact List.mem_append_left _ placed
  | returned reply =>
    cases reply with
    | none =>
      rw [Placed, lostCalls_append, sentCalls_append]
      rcases placed with lost | never
      · exact Or.inl (List.mem_append_left _ lost)
      · refine Or.inr fun sent => ?_
        exact (List.mem_append.mp sent).elim never unsent
    | some info =>
      rw [Placed, replies_append]
      exact List.mem_append_left _ placed
  | dropped => trivial

/-- A call that waits is settled, any other is where it was. -/
theorem placed_settle {s' : Asking} {past more : List AskOutput} {call : Nat} {place : GetInfo}
    {reply : Option OpLogInfo} (unsent : call ∉ sentCalls more)
    (settled : Placed s' (past ++ more) call (.settled reply)) (placed : Placed s past call place) :
    Placed s' (past ++ more) call (place.settle reply) := by
  cases place with
  | waiting => exact settled
  | _ => exact placed_later unsent (fun waits => by cases waits) placed

/-- Nothing happens to the calls. -/
theorem orderly_quiet {s' : Asking} {out : List AskOutput} (orderly : Orderly s past)
    (quiet : sentCalls out = [] ∧ replies out = [] ∧ lostCalls out = [])
    (same : s'.senders = s.senders ∧ s'.calls = s.calls)
    (carried : s'.tx.queue.count .getInfoAndFlush = s.tx.queue.count .getInfoAndFlush)
    (going : s'.system.shared.task ≠ .finished → s.system.shared.task ≠ .finished)
    (drained : s'.system.shared.task = .finished →
      s.system.shared.task = .finished ∧ s'.tx.closed = s.tx.closed) : Orderly s' (past ++ out) := by
  obtain ⟨sent, replied, lost⟩ := quiet
  obtain ⟨senders, calls⟩ := same
  refine ⟨?_, ?_, ?_, ?_, ?_, ?_⟩
  · rw [sentCalls_append, replies_append, lostCalls_append, sent, replied, lost, senders,
      List.append_nil, List.append_nil, List.append_nil]
    exact orderly.order
  · rw [sentCalls_append, sent, List.append_nil]
    exact orderly.once
  · rw [senders, carried]
    exact orderly.carried
  · rw [lostCalls_append, lost, List.append_nil]
    exact fun unfinished => orderly.unlost (going unfinished)
  · intro finished
    obtain ⟨was, closed⟩ := drained finished
    rw [closed, senders]
    exact orderly.drained was
  · intro call place there
    rw [calls] at there
    have was := orderly.placed call place there
    apply placed_later _ _ was
    · rw [sent]
      exact List.not_mem_nil
    · rintro rfl
      rw [senders]
      exact was

theorem step_orderly (s : Asking) (event : AskEvent) (past : List AskOutput) (orderly : Orderly s past) :
    Orderly (s.step warsaw event).1 (past ++ (s.step warsaw event).2) := by
  have taken := step_effect warsaw s event
  generalize (s.step warsaw event).1 = s', (s.step warsaw event).2 = out at taken
  have ⟨order, once, carried, unlost, drained, placed⟩ := orderly
  cases taken with
  | sent call created tx queue isOpen =>
    have new : call ∉ sentCalls past := placed call .created created
    have sent : sentCalls (past ++ [.sent call]) = sentCalls past ++ [call] := sentCalls_append _ _
    have replies : replies (past ++ [.sent call]) = replies past :=
      (replies_append _ _).trans (List.append_nil _)
    have lost : lostCalls (past ++ [.sent call]) = lostCalls past :=
      (lostCalls_append _ _).trans (List.append_nil _)
    refine ⟨?_, ?_, ?_, ?_, ?_, placed_set (List.mem_append_right _ (List.mem_singleton_self call))
      ?_ rfl⟩
    · rw [sent, replies, lost, order, List.append_assoc]
    · rw [sent, List.nodup_append]
      refine ⟨once, List.nodup_singleton call, ?_⟩
      intro earlier isEarlier last isLast
      rw [List.mem_singleton.mp isLast]
      rintro rfl
      exact new isEarlier
    · show (s.senders ++ [call]).length = tx.queue.count .getInfoAndFlush
      rw [queue, List.length_append, List.count_append, carried]
      rfl
    · rw [lost]
      exact unlost
    · intro finished
      have closed := (drained finished).1
      rw [isOpen.1] at closed
      cases closed
    · intro other place different there
      apply placed_later _ _ (placed other place there)
      · intro isCall
        exact different (List.mem_singleton.mp isCall)
      · rintro rfl
        exact List.mem_append_left _ (placed other .waiting there)
  | refused call created =>
    rw [List.append_nil]
    refine ⟨order, once, carried, unlost, drained, placed_set ?_ ?_ rfl⟩
    · exact Or.inr (placed call .created created)
    · exact fun other place _ there => placed other place there
  | returned call reply settled =>
    rw [List.append_nil]
    refine ⟨order, once, carried, unlost, drained, placed_set ?_ ?_ rfl⟩
    · have was := placed call (.settled reply) settled
      cases reply with
      | none => exact Or.inl was
      | some info => exact was
    · exact fun other place _ there => placed other place there
  | dropped call =>
    rw [List.append_nil]
    refine ⟨order, once, carried, unlost, drained, ?_⟩
    apply placed_map _ (fun other => getElem?_modify_map s.calls call other GetInfo.drop)
    intro other place there
    split
    · cases place with
      | returned reply => exact placed other _ there
      | _ => trivial
    · exact placed other place there
  | around event system more unasked queue closed task out silent =>
    obtain ⟨sent, -, replied, lost, -⟩ := of_output out
    apply orderly_quiet orderly ⟨sent, replied, lost⟩
    · exact ⟨rfl, rfl⟩
    · show system.shared.inner.tx.queue.count .getInfoAndFlush = _
      rw [queue, List.count_append, List.count_eq_zero.mpr unasked, Nat.add_zero]
    · exact fun going finished => going (task.trans finished)
    · exact fun finished => ⟨task.symm.trans finished, closed⟩
  | received env system msg unasked queue task out entries =>
    obtain ⟨sent, -, replied, lost, -⟩ := of_output out
    have plain : msg ≠ .getInfoAndFlush := by
      rintro rfl
      rw [unasked rfl, queue, List.count_cons_self] at carried
      cases carried
    apply orderly_quiet orderly
    · exact ⟨sent, replied, lost⟩
    · exact ⟨rfl, rfl⟩
    · rw [queue, List.count_cons_of_ne plain]
      rfl
    · rw [task.1]
      simp
    · exact fun finished => absurd finished task.2
  | replied env system call senders isNext queue task world =>
    have running : s.system.shared.task ≠ .finished := by simp [task.1]
    generalize (s.system.shared.world.step warsaw (.message env .getInfoAndFlush)).2 = out
    let info := s.system.shared.world.worker.info
    obtain ⟨more, isMore⟩ : ∃ more, more = AskOutput.received .getInfoAndFlush ::
      out.map .out ++ [.reply call info] := ⟨_, rfl⟩
    have sent : sentCalls more = [] := by simp [isMore, sentCalls]
    have replied : replies more = [(call, info)] := by simp [isMore, replies]
    have lost : lostCalls more = [] := by simp [isMore, lostCalls]
    rw [← isMore]
    refine ⟨?_, ?_, ?_, ?_, ?_, ?_⟩
    · simp [sent, replied, lost, order, unlost running, isNext]
    · simpa [sent] using once
    · rw [isNext, queue, List.count_cons_self, List.length_cons] at carried
      exact Nat.succ.inj carried
    · simp [lost, unlost running]
    · intro finished
      rw [task.2] at finished
      cases finished
    · apply placed_map _ (fun other => getElem?_modify_map s.calls call other (.settle (some info)))
      intro other place there
      have was := placed other place there
      have unsent : other ∉ sentCalls more := by simp [sent]
      split
      · rename_i same
        apply placed_settle unsent _ was
        simp [Placed, replied, same]
      · rename_i different
        apply placed_later unsent _ was
        rintro rfl
        rw [Placed, isNext] at was
        exact (List.mem_cons.mp was).resolve_left (Ne.symm different)
  | ended env system flushing isOver task out silent =>
    have going : s.system.shared.task ≠ .finished := by simp [flushing]
    obtain ⟨more, isMore⟩ : ∃ more, more = out.map .out ++ s.senders.map AskOutput.lost := ⟨_, rfl⟩
    have sent : sentCalls more = [] := by simp [isMore]
    have replied : replies more = [] := by simp [isMore]
    have lost : lostCalls more = s.senders := by simp [isMore]
    rw [← isMore]
    refine ⟨?_, ?_, ?_, ?_, ?_, ?_⟩
    · simp [sent, replied, lost, order, unlost going]
    · simpa [sent] using once
    · simp [Asking.tx, isOver.2]
    · exact fun unfinished => absurd task unfinished
    · exact fun _ => ⟨isOver.1, rfl⟩
    · apply placed_map _ (fun _ => List.getElem?_mapIdx)
      intro call place there
      have was := placed call place there
      have unsent : call ∉ sentCalls more := by simp [sent]
      split
      · rename_i queued
        apply placed_settle unsent _ was
        simp [Placed, lost, queued]
      · rename_i unqueued
        apply placed_later unsent _ was
        rintro rfl
        exact absurd was unqueued

variable (warsaw) in
theorem run_orderly (disk : Disk) (n m : Nat) (events : List AskEvent) :
    let final := Machine.run (Asking.step warsaw) (.start disk n m) events
    Orderly final.1 final.2 := by
  refine Machine.run_invariant_always Orderly step_orderly (.start disk n m) [] ?_ events
  refine ⟨rfl, List.nodup_nil, rfl, fun _ => rfl, ?_, ?_⟩
  · intro finished
    cases finished
  intro call place there
  rw [List.eq_of_mem_replicate (List.mem_of_getElem? there)]
  exact List.not_mem_nil

variable (warsaw) in
/-- The calls whose messages were accepted, in that order, are those that were answered, each
once, those that were lost, and those whose sender is in the queue. Calls are lost only when the
task ends, and then none is left that waits: every call that has come back with counts was
answered with them, and one that has come back with nothing was refused or lost. -/
theorem calls_are_settled_once (disk : Disk) (n m : Nat) (events : List AskEvent) :
    let final := Machine.run (Asking.step warsaw) (.start disk n m) events
    (sentCalls final.2).Nodup ∧
      sentCalls final.2 = (replies final.2).map Prod.fst ++ lostCalls final.2 ++ final.1.senders ∧
      (final.1.system.shared.task ≠ .finished → lostCalls final.2 = []) ∧
      (final.1.system.shared.task = .finished → final.1.senders = [] ∧ .waiting ∉ final.1.calls) ∧
      ∀ call place, final.1.calls[call]? = some place → Placed final.1 final.2 call place := by
  intro final
  have orderly := run_orderly warsaw disk n m events
  refine ⟨orderly.once, orderly.order, orderly.unlost, ?_, orderly.placed⟩
  intro finished
  have none := (orderly.drained finished).2
  refine ⟨none, fun waits => ?_⟩
  obtain ⟨call, there⟩ := List.mem_iff_getElem?.mp waits
  have queued : call ∈ final.1.senders := orderly.placed call .waiting there
  rw [none] at queued
  cases queued

/-! ## What the worker does meanwhile -/

/-- The events of the service that are in an event. -/
def serviceEvents (s : Asking) : AskEvent → List ShutdownEvent
  | .poll call => if s.calls[call]? = some .created then [.other .getInfoAndFlush] else []
  | .drop _ => []
  | .service (.other .getInfoAndFlush) => []
  | .service event => [event]

/-- What the worker does in an event of the service. -/
def workerEvents (s : ShuttingDown) : ShutdownEvent → List Event
  | .writerTick env => if s.shared.task = .running then [.writerTick env] else []
  | .cleanupTick now deleted completed =>
    if s.shared.task = .running then [.cleanupTick now deleted completed] else []
  | .recv env =>
    if s.shared.task = .running then
      (s.shared.inner.tx.queue.head?.filter (· ≠ .stopService)).toList.map (.message env)
    else []
  | .lastFlush env => if s.shared.task = .flushing then [.message ⟨0, env⟩ .flush] else []
  | _ => []

/-- The passes that an event of the service may make. -/
def ServicePasses : ShutdownEvent → PassEnv → Prop
  | .writerTick env, pass => pass = env
  | .recv env, pass => ∃ n, pass = env.flush.pass n
  | .lastFlush env, pass => ∃ n, pass = env.pass n
  | _, _ => False

/-- Those of a run among the calls. -/
def passesAmong (events : List AskEvent) (pass : PassEnv) : Prop :=
  ∃ event, .service event ∈ events ∧ ServicePasses event pass

theorem worker_passes {s : ShuttingDown} {event : ShutdownEvent} {e : Event} {pass : PassEnv}
    (member : e ∈ workerEvents s event) (made : Delivery.Passes e pass) :
    ServicePasses event pass := by
  cases event with
  | writerTick env =>
    simp only [workerEvents, List.mem_ite_nil_right, List.mem_singleton] at member
    rw [member.2] at made
    exact made
  | cleanupTick now deleted completed =>
    simp only [workerEvents, List.mem_ite_nil_right, List.mem_singleton] at member
    rw [member.2] at made
    exact made
  | recv env =>
    simp only [workerEvents, List.mem_ite_nil_right, List.mem_map] at member
    obtain ⟨-, msg, -, rfl⟩ := member
    exact made
  | lastFlush env =>
    simp only [workerEvents, List.mem_ite_nil_right, List.mem_singleton] at member
    rw [member.2] at made
    exact made
  | poll call => cases member
  | drop call => cases member
  | other msg => cases member

theorem service_listed {s : Asking} {event : AskEvent} {e : ShutdownEvent}
    (member : e ∈ serviceEvents s event) :
    event = .service e ∨ e = .other .getInfoAndFlush := by
  cases event with
  | poll call =>
    simp only [serviceEvents, List.mem_ite_nil_right, List.mem_singleton] at member
    exact Or.inr member.2
  | drop call => cases member
  | service event =>
    cases event with
    | other msg =>
      cases msg <;> first | exact Or.inl (by rw [List.mem_singleton.mp member]) | cases member
    | _ => exact Or.inl (by rw [List.mem_singleton.mp member])

variable (warsaw)

theorem step_worker (s : ShuttingDown) (event : ShutdownEvent) :
    Machine.run (World.step warsaw) s.shared.world (workerEvents s event) =
      ((s.step warsaw event).1.shared.world, (s.step warsaw event).2) := by
  have one (event : Event) :
      Machine.run (World.step warsaw) s.shared.world [event] = s.shared.world.step warsaw event := by
    rw [Machine.run_cons, Machine.run_nil, List.append_nil]
  cases event with
  | poll call =>
    simp only [ShuttingDown.step, workerEvents, Machine.run_nil]
    cases there : s.threads[call]? with
    | none => rw [Threads.advance_none there]
    | some thread =>
      obtain ⟨-, world, silent, -⟩ := Shutdown.poll_frame s.shared thread
      rw [Threads.advance_some there, world, silent]
  | drop call =>
    simp only [ShuttingDown.step, workerEvents, Machine.run_nil]
    cases there : s.threads[call]? with
    | none => rw [Threads.advance_none there]
    | some thread =>
      obtain ⟨-, world, silent⟩ := Shutdown.drop_frame s.shared thread
      rw [Threads.advance_some there, world, silent]
  | other msg => rfl
  | writerTick env =>
    simp only [ShuttingDown.step, workerEvents, Service.tick]
    split
    · exact one _
    · rfl
  | cleanupTick now deleted completed =>
    simp only [ShuttingDown.step, workerEvents, Service.tick]
    split
    · exact one _
    · rfl
  | recv env =>
    simp only [ShuttingDown.step, workerEvents, Service.recv, Channel.recv]
    split
    · cases queue : s.shared.inner.tx.queue with
      | nil => rfl
      | cons msg rest => cases msg <;> first | rfl | exact one _
    · rfl
  | lastFlush env =>
    simp only [ShuttingDown.step, workerEvents, Service.lastFlush]
    split
    · exact one _
    · rfl

theorem step_service (s : Asking) (event : AskEvent) :
    Machine.run (ShuttingDown.step warsaw) s.system (serviceEvents s event) =
      ((s.step warsaw event).1.system, outs (s.step warsaw event).2) := by
  have one (event : ShutdownEvent) :
      Machine.run (ShuttingDown.step warsaw) s.system [event] = s.system.step warsaw event := by
    rw [Machine.run_cons, Machine.run_nil, List.append_nil]
  cases event with
  | poll call =>
    simp only [Asking.step, Asking.poll, serviceEvents]
    cases there : s.calls[call]? with
    | none => rfl
    | some place =>
      cases place with
      | created =>
        rw [if_pos rfl, one]
        simp only [ShuttingDown.step]
        rw [show s.system.shared.inner.tx.trySend CHANNEL_CAPACITY .getInfoAndFlush =
          s.tx.trySend CHANNEL_CAPACITY .getInfoAndFlush from rfl]
        cases s.tx.trySend CHANNEL_CAPACITY .getInfoAndFlush <;> rfl
      | _ => rfl
  | drop call => rfl
  | service event =>
    have around (event : ShutdownEvent) : Machine.run (ShuttingDown.step warsaw) s.system [event] =
        ((s.system.step warsaw event).1, outs ((s.system.step warsaw event).2.map .out)) := by
      rw [one, (of_output _).2.2.2.2]
    cases event with
    | recv env =>
      simp only [Asking.step, Asking.service, serviceEvents, one]
      split
      · unfold Asking.recv
        dsimp only
        split
        · rename_i running _ _ empty
          have nothing : s.system.shared.recv warsaw env = (s.system.shared, []) := by
            unfold Service.recv Channel.recv
            rw [if_pos running, show s.system.shared.inner.tx.queue = [] from empty]
          simp only [ShuttingDown.step, nothing]
          rfl
        · simp [outs]
        · simp [outs]
      · rename_i ended
        simp only [ShuttingDown.step, Service.recv, if_neg ended]
        rfl
    | lastFlush env =>
      simp only [Asking.step, Asking.service, serviceEvents, one]
      split
      · simp [Asking.lastFlush]
      · rename_i going
        simp only [ShuttingDown.step, Service.lastFlush, if_neg going]
        rfl
    | other msg => cases msg <;> rfl
    | _ => exact around _

/-- The worker among the calls has gone through a run of its own steps, and made no other passes. -/
theorem run_worker (disk : Disk) (n m : Nat) (events : List AskEvent) :
    let final := Machine.run (Asking.step warsaw) (.start disk n m) events
    ∃ steps, Machine.run (World.step warsaw) ⟨.new, disk⟩ steps =
        (final.1.system.shared.world, outs final.2) ∧
      ∀ pass, Delivery.passesOf steps pass → passesAmong events pass := by
  intro final
  have service := Machine.run_projected (Asking.step warsaw) serviceEvents Asking.system outs rfl
    outs_append (step_service warsaw) (.start disk n m) events
  have worker := Machine.run_projected (ShuttingDown.step warsaw) workerEvents (·.shared.world) id rfl
    (fun _ _ => rfl) (step_worker warsaw) (.start disk n)
    (Machine.projected (Asking.step warsaw) serviceEvents (.start disk n m) events)
  rw [show ShuttingDown.start disk n = (Asking.start disk n m).system from rfl, service] at worker
  refine ⟨_, worker, ?_⟩
  intro pass made
  obtain ⟨e, member, made⟩ := made
  obtain ⟨s, event, served, worked⟩ := Machine.mem_projected _ _ member
  obtain ⟨s', asked, there, listed⟩ := Machine.mem_projected _ _ served
  have passes := worker_passes worked made
  rcases service_listed listed with rfl | rfl
  · exact ⟨event, there, passes⟩
  · cases passes

/-- The entries passed to `log` are those of the messages received. -/
theorem step_logged (s : Asking) (event : AskEvent) (past : List AskOutput)
    (before : logged (outs past) = (received past).flatMap entriesOf) :
    logged (outs (past ++ (s.step warsaw event).2)) =
      (received (past ++ (s.step warsaw event).2)).flatMap entriesOf := by
  have taken := step_effect warsaw s event
  generalize (s.step warsaw event).1 = s', (s.step warsaw event).2 = out at taken
  have logged_append (past more : List Output) : logged (past ++ more) = logged past ++ logged more :=
    List.filterMap_append
  rw [outs_append, received_append, logged_append, List.flatMap_append, before]
  congr 1
  cases taken with
  | around event system more unasked queue closed task out silent =>
    rw [(of_output out).2.2.2.2, (of_output out).2.1]
    exact silent
  | received env system msg unasked queue task out entries =>
    show logged (outs (out.map .out)) = (msg :: received (out.map .out)).flatMap entriesOf
    rw [(of_output out).2.2.2.2, (of_output out).2.1, List.flatMap_singleton]
    exact entries
  | replied env system call senders isNext queue task world =>
    have entries : logged (s.system.shared.world.step warsaw (.message env .getInfoAndFlush)).2 = [] :=
      logged_onMessage warsaw s.system.shared.world env .getInfoAndFlush
    generalize (s.system.shared.world.step warsaw (.message env .getInfoAndFlush)).2 = out at entries
    simp [outs, received, entriesOf, entries]
  | ended env system flushing isOver task out silent => simp [silent]
  | _ => rfl

/-! ## The barrier -/

/-- The message of a call is in the queue, and the messages received so far and those ahead of it
are `first`. -/
structure Behind (first : List OpLogMessage) (call : Nat) (s : Asking) (past : List AskOutput) :
    Prop where
  waits : s.calls[call]? = some .waiting ∨ s.calls[call]? = some .dropped
  queued : ∃ ahead behind earlier later, s.tx.queue = ahead ++ .getInfoAndFlush :: behind ∧
    s.senders = earlier ++ call :: later ∧ call ∉ earlier ∧
    earlier.length = ahead.count .getInfoAndFlush ∧ received past ++ ahead = first

/-- Another call moves. -/
theorem waits_set {calls : List GetInfo} {call other : Nat} {place new : GetInfo}
    (waits : calls[call]? = some .waiting ∨ calls[call]? = some .dropped)
    (there : calls[other]? = some place) (moved : place ≠ .waiting ∧ place ≠ .dropped) :
    (calls.set other new)[call]? = some .waiting ∨ (calls.set other new)[call]? = some .dropped := by
  have different : other ≠ call := by
    intro same
    rw [same] at there
    rw [there] at waits
    simp [moved] at waits
  rwa [List.getElem?_set_ne different]

/-- Its caller drops it, or another call changes. -/
theorem waits_modify {calls : List GetInfo} {call other : Nat} {change : GetInfo → GetInfo}
    (waits : calls[call]? = some .waiting ∨ calls[call]? = some .dropped)
    (kept : other ≠ call ∨ change = GetInfo.drop) :
    (calls.modify other change)[call]? = some .waiting ∨
      (calls.modify other change)[call]? = some .dropped := by
  rw [getElem?_modify_map]
  split
  · rename_i same
    obtain rfl := kept.resolve_left (fun different => different same)
    rcases waits with waiting | dropped
    · exact Or.inr (by rw [waiting]; rfl)
    · exact Or.inr (by rw [dropped]; rfl)
  · rwa [Option.map_id]

/-- More is sent, and nothing received. -/
theorem behind_more {first : List OpLogMessage} {call : Nat} {s s' : Asking}
    {past past' : List AskOutput} (behind : Behind first call s past)
    (waits : s'.calls[call]? = some .waiting ∨ s'.calls[call]? = some .dropped)
    (more : List OpLogMessage) (queue : s'.tx.queue = s.tx.queue ++ more)
    (others : List Nat) (senders : s'.senders = s.senders ++ others)
    (silent : received past' = received past) : Behind first call s' past' := by
  obtain ⟨-, ahead, behind, earlier, later, there, carried, unique, count, order⟩ := behind
  refine ⟨waits, ahead, behind ++ more, earlier, later ++ others, ?_, ?_, unique, count, ?_⟩
  · rw [queue, there, List.append_assoc, List.cons_append]
  · rw [senders, carried, List.append_assoc, List.cons_append]
  · rw [silent]
    exact order

/-- The message at the head of the queue is that of this call. -/
def IsNext (call : Nat) (s : Asking) : Prop :=
  s.tx.queue.head? = some .getInfoAndFlush ∧ s.senders.head? = some call

/-- The worker receives the message of the call: it handles it as any `GetInfoAndFlush`, and then
sends the counts it had before. -/
structure Answers (call : Nat) (env : MessageEnv) (s s' : Asking) (out : List AskOutput) : Prop where
  isNext : IsNext call s
  world : s'.system.shared.world = (s.system.shared.world.step warsaw (.message env .getInfoAndFlush)).1
  outputs : out = .received .getInfoAndFlush ::
    (s.system.shared.world.step warsaw (.message env .getInfoAndFlush)).2.map .out ++
      [.reply call s.system.shared.world.worker.info]
  settled : s'.calls[call]? = some (.settled (some s.system.shared.world.worker.info)) ∨
    s'.calls[call]? = some .dropped

/-- What a step does to a call whose message is queued: it is still queued, or answered behind
all of `first`, or lost. -/
theorem step_behind {first : List OpLogMessage} {call : Nat} {s : Asking} (event : AskEvent)
    {past : List AskOutput} (isBehind : Behind first call s past) :
    let r := s.step warsaw event
    Behind first call r.1 (past ++ r.2) ∨
      (∃ env, event = .service (.recv env) ∧ received past = first ∧
        Answers warsaw call env s r.1 r.2) ∨
      r.1.calls[call]? = some (.settled none) ∨ r.1.calls[call]? = some .dropped := by
  have taken := step_effect warsaw s event
  dsimp only
  generalize (s.step warsaw event).1 = s', (s.step warsaw event).2 = out at taken
  have ⟨waits, ahead, behind, earlier, later, queue, senders, unique, count, order⟩ := isBehind
  -- a call that moves without the worker
  have still {s' : Asking} (waits : s'.calls[call]? = some .waiting ∨ s'.calls[call]? = some .dropped)
      (queue : s'.tx.queue = s.tx.queue) (senders : s'.senders = s.senders) :
      Behind first call s' (past ++ []) :=
    behind_more isBehind waits [] (by rw [queue, List.append_nil]) [] (by rw [senders, List.append_nil])
      (by rw [List.append_nil])
  cases taken with
  | sent other created tx queue' isOpen =>
    left
    refine behind_more isBehind (waits_set waits created (by simp)) _ queue' [other] rfl ?_
    rw [received_append]
    exact List.append_nil _
  | refused other created => exact Or.inl (still (waits_set waits created (by simp)) rfl rfl)
  | returned other reply settled => exact Or.inl (still (waits_set waits settled (by simp)) rfl rfl)
  | dropped other => exact Or.inl (still (waits_modify waits (Or.inr rfl)) rfl rfl)
  | around event system more unasked queue' closed task out silent =>
    left
    refine behind_more isBehind waits more queue' [] (List.append_nil _).symm ?_
    rw [received_append, (of_output out).2.1, List.append_nil]
  | received env system msg unasked queue' task out entries =>
    left
    rw [queue] at queue'
    cases ahead with
    | nil =>
      have none := unasked (List.cons.inj queue').1.symm
      rw [senders] at none
      simp at none
    | cons head ahead =>
      obtain ⟨rfl, rest⟩ := List.cons.inj queue'
      have plain : head ≠ .getInfoAndFlush := by
        intro asked
        have none := unasked asked
        rw [senders] at none
        simp at none
      refine ⟨waits, ahead, behind, earlier, later, rest.symm, senders, unique, ?_, ?_⟩
      · rw [count, List.count_cons_of_ne plain]
      · show received (past ++ (.received head :: out.map .out)) ++ ahead = first
        rw [received_append, ← order]
        simp [received]
  | replied env system other others isNext queue' task world =>
    rw [senders] at isNext
    rw [queue] at queue'
    cases ahead with
    | nil =>
      right
      left
      have none : earlier = [] := List.eq_nil_of_length_eq_zero count
      subst none
      obtain ⟨rfl, -⟩ := List.cons.inj isNext
      refine ⟨env, rfl, (List.append_nil _).symm.trans order, ⟨?_, ?_⟩, world, rfl, ?_⟩
      · rw [queue]
        rfl
      · rw [senders]
        rfl
      show (s.calls.modify call _)[call]? = _ ∨ (s.calls.modify call _)[call]? = _
      rw [getElem?_modify_map, if_pos rfl]
      rcases waits with waiting | dropped
      · exact Or.inl (by rw [waiting]; rfl)
      · exact Or.inr (by rw [dropped]; rfl)
    | cons head ahead =>
      left
      obtain ⟨rfl, rest⟩ := List.cons.inj queue'
      rw [List.count_cons_self] at count
      cases earlier with
      | nil => cases count
      | cons next earlier =>
        obtain ⟨rfl, rest'⟩ := List.cons.inj isNext
        have different : next ≠ call := fun same => unique (same ▸ List.mem_cons_self)
        refine ⟨?_, ahead, behind, earlier, later, rest.symm, rest'.symm, ?_, ?_, ?_⟩
        · exact waits_modify waits (Or.inl different)
        · exact fun member => unique (List.mem_cons_of_mem _ member)
        · exact Nat.succ.inj count
        · rw [received_append, ← order]
          simp [received]
  | ended env system flushing isOver task out silent =>
    right
    right
    have member : call ∈ s.senders := by simp [senders]
    simp only [List.getElem?_mapIdx]
    rcases waits with waiting | dropped
    · left
      simp [waiting, member, GetInfo.settle]
    · right
      simp [dropped, GetInfo.settle]

/-- The call has been settled with this reply, or dropped. -/
def Ends (reply : Option OpLogInfo) (call : Nat) (s : Asking) : Prop :=
  ∃ place, s.calls[call]? = some place ∧
    (place = .settled reply ∨ place = .returned reply ∨ place = .dropped)

theorem step_ends {reply : Option OpLogInfo} {call : Nat} (s : Asking) (event : AskEvent)
    (ends : Ends reply call s) : Ends reply call (s.step warsaw event).1 := by
  have taken := step_effect warsaw s event
  generalize (s.step warsaw event).1 = s', (s.step warsaw event).2 = out at taken
  have ⟨place, there, settled⟩ := ends
  have started {other : Nat} (created : s.calls[other]? = some .created) : other ≠ call := by
    intro same
    rw [same, there] at created
    rcases settled with rfl | rfl | rfl <;> cases created
  have elsewhere {other : Nat} {new : GetInfo} {s' : Asking} (calls : s'.calls = s.calls.set other new)
      (different : other ≠ call) : Ends reply call s' :=
    ⟨place, by rw [calls, List.getElem?_set_ne different, there], settled⟩
  have mapped {s' : Asking} {change : GetInfo → GetInfo}
      (calls : s'.calls[call]? = s.calls[call]?.map change)
      (kept : change place = place ∨ change place = .dropped) : Ends reply call s' := by
    rw [there, Option.map_some] at calls
    refine ⟨_, calls, ?_⟩
    rcases kept with same | dropped
    · rw [same]
      exact settled
    · exact Or.inr (Or.inr dropped)
  have unsettled (reply : Option OpLogInfo) : place.settle reply = place := by
    rcases settled with rfl | rfl | rfl <;> rfl
  cases taken with
  | sent other created tx queue isOpen => exact elsewhere rfl (started created)
  | refused other created => exact elsewhere rfl (started created)
  | returned other last isSettled =>
    by_cases same : other = call
    · subst same
      have isPlace := Option.some.inj (there.symm.trans isSettled)
      refine ⟨.returned last, ?_, ?_⟩
      · rw [List.getElem?_set_self (List.getElem?_eq_some_iff.mp there).1]
      · rcases settled with rfl | rfl | rfl
        · rw [GetInfo.settled.inj isPlace]
          exact Or.inr (Or.inl rfl)
        · cases isPlace
        · cases isPlace
    · exact elsewhere rfl same
  | dropped other =>
    apply mapped (getElem?_modify_map s.calls other call GetInfo.drop)
    split
    · rcases settled with rfl | rfl | rfl
      · exact Or.inr rfl
      · exact Or.inl rfl
      · exact Or.inl rfl
    · exact Or.inl rfl
  | around event system more unasked queue closed task out silent => exact ends
  | received env system msg unasked queue task out entries => exact ends
  | replied env system other others isNext queue task world =>
    apply mapped (getElem?_modify_map s.calls other call _)
    left
    split
    · exact unsettled _
    · rfl
  | ended env system flushing isOver task out silent =>
    apply mapped List.getElem?_mapIdx
    left
    split
    · exact unsettled _
    · rfl

theorem ends_unique {reply reply' : Option OpLogInfo} {call : Nat} {s : Asking}
    (ends : Ends reply call s) (returned : s.calls[call]? = some (.returned reply')) :
    reply = reply' := by
  obtain ⟨place, there, settled⟩ := ends
  obtain rfl := Option.some.inj (there.symm.trans returned)
  rcases settled with same | same | same
  · cases same
  · exact (GetInfo.returned.inj same).symm
  · cases same

/-- The message of a call that is accepted comes behind all there is. -/
theorem poll_behind {s : Asking} {past : List AskOutput} (orderly : Orderly s past) {call : Nat}
    (created : s.calls[call]? = some .created) :
    let r := s.step warsaw (.poll call)
    Behind (received past ++ s.tx.queue) call r.1 (past ++ r.2) ∨ Ends none call r.1 := by
  have inside := (List.getElem?_eq_some_iff.mp created).1
  dsimp only [Asking.step]
  unfold Asking.poll
  simp only [created]
  cases accepted : s.tx.trySend CHANNEL_CAPACITY .getInfoAndFlush with
  | none => exact Or.inr ⟨_, List.getElem?_set_self inside, Or.inr (Or.inl rfl)⟩
  | some tx =>
    left
    unfold Channel.trySend at accepted
    split at accepted
    · cases accepted
      refine ⟨Or.inl (List.getElem?_set_self inside), s.tx.queue, [], s.senders, [], rfl, rfl, ?_,
        orderly.carried, ?_⟩
      · intro queued
        apply orderly.placed call .created created
        rw [orderly.order]
        exact List.mem_append_right _ queued
      · rw [received_append]
        exact congrArg (· ++ s.tx.queue) (List.append_nil _)
    · cases accepted

/-- The passes that were made. -/
def passesMade (history : List AskOutput) : List PassAttempts :=
  history.filterMap fun
    | .out (.pass attempts) => some attempts
    | _ => none

/-- What the worker does when it answers a call: the passes of its flush, which leaves the world as
it is then. -/
theorem answers_flush {call : Nat} {env : MessageEnv} {s s' : Asking} {out : List AskOutput}
    (answers : Answers warsaw call env s s' out) :
    let flushed := s.system.shared.world.worker.flush warsaw env.flush s.system.shared.world.disk
    s'.system.shared.world.worker = flushed.1 ∧ passesMade out = flushed.2.2 ∧
      received out = [.getInfoAndFlush] ∧
      replies out = [(call, s.system.shared.world.worker.info)] ∧
      outs out = flushed.2.2.map .pass ++ [.info s.system.shared.world.worker.info] := by
  intro flushed
  have handled : s.system.shared.world.step warsaw (.message env .getInfoAndFlush) =
      (⟨flushed.1, flushed.2.1⟩,
        flushed.2.2.map .pass ++ [.info s.system.shared.world.worker.info]) := rfl
  obtain ⟨-, world, outputs, -⟩ := answers
  rw [handled] at world outputs
  rw [outputs, world]
  have quiet := of_output (flushed.2.2.map Output.pass ++ [.info s.system.shared.world.worker.info])
  refine ⟨rfl, ?_, ?_, ?_, ?_⟩
  · simp only [passesMade, List.map_append, List.map_map, List.filterMap_append, List.filterMap_cons,
      List.filterMap_map, List.cons_append, List.map_cons, List.map_nil, List.filterMap_nil,
      List.append_nil]
    exact List.filterMap_some
  · rw [received_append]
    exact congrArg (fun msgs => OpLogMessage.getInfoAndFlush :: msgs ++ []) quiet.2.1
  · rw [replies_append]
    exact congrArg (· ++ [(call, s.system.shared.world.worker.info)]) quiet.2.2.1
  · rw [outs_append]
    exact (List.append_nil _).trans quiet.2.2.2.2

/-- The entries passed to `log` are those of the messages received. -/
theorem run_logged (disk : Disk) (n m : Nat) (events : List AskEvent) :
    let final := Machine.run (Asking.step warsaw) (.start disk n m) events
    logged (outs final.2) = (received final.2).flatMap entriesOf :=
  Machine.run_invariant_always (fun _ past => logged (outs past) = (received past).flatMap entriesOf)
    (step_logged warsaw) (.start disk n m) [] rfl events

/-- The flush of the step that answers a call, behind any run: every pass counts that is among
those of the run and of the step. -/
theorem answer_settles (disk : Disk) (n m : Nat) (events : List AskEvent) (call : Nat)
    {env : MessageEnv} {passes : PassEnv → Prop}
    (among : ∀ pass, passesAmong (events ++ [.service (.recv env)]) pass → passes pass) :
    let reached := Machine.run (Asking.step warsaw) (.start disk n m) events
    let done := reached.1.step warsaw (.service (.recv env))
    Answers warsaw call env reached.1 done.1 done.2 →
    (∀ attempts ∈ passesMade done.2, Drain.Succeeds attempts) →
    (passesMade done.2).length ≤ env.flush.deadline ∨
      Drain.Bounded reached.1.system.shared.world.worker (env.flush.deadline + 1) →
    (∀ name key f, done.1.system.shared.world.worker.file? name key = some f → f.logs = []) ∧
      ∀ name key, Settled (Delivery.attemptsOf passes name key)
        (Delivery.routed name key (outs reached.2))
        (Delivery.framesOf name key (outs reached.2 ++ outs done.2)) := by
  intro reached done here succeeds inTime
  obtain ⟨flushed, made, -, -, outputs⟩ := answers_flush warsaw here
  obtain ⟨steps, worker, passed⟩ := run_worker warsaw disk n m events
  have balanced := Delivery.run_balanced warsaw disk steps
  rw [worker] at balanced
  have counted : Delivery.Balanced passes reached.1.system.shared.world.worker (outs reached.2) := by
    refine Delivery.balanced_mono (fun pass isPass => among pass ?_) balanced
    obtain ⟨event, member, same⟩ := passed pass isPass
    exact ⟨event, List.mem_append_left _ member, same⟩
  rw [made] at succeeds inTime
  obtain ⟨empty, settled⟩ := flush_settles counted env.flush
    (fun n => among _ ⟨.recv env, by simp, n, rfl⟩) reached.1.system.shared.world.disk succeeds inTime
  rw [flushed, outputs]
  refine ⟨empty, fun name key => ?_⟩
  have unframed : Delivery.framesOf name key
      [.info reached.1.system.shared.world.worker.info] = [] := rfl
  rw [← List.append_assoc, Delivery.framesOf_append, unframed, List.append_nil]
  exact settled name key

/-- A call that comes back with counts has been a barrier. Its message was received, and answered,
when exactly the messages accepted before it had been received and their entries handled; the counts
are those of the worker then. If the flush of that step succeeds in time, the step leaves no file
with entries, and every entry sent before the call whose name was registered is in a frame that has
been written by then or in the count of a written notice. -/
theorem get_info_is_a_barrier (disk : Disk) (n m : Nat) (before after : List AskEvent) (call : Nat)
    (info : OpLogInfo) :
    let asked := Machine.run (Asking.step warsaw) (.start disk n m) before
    let final := Machine.run (Asking.step warsaw) asked.1 (.poll call :: after)
    asked.1.calls[call]? = some .created → final.1.calls[call]? = some (.returned (some info)) →
    ∃ middle env rest, after = middle ++ .service (.recv env) :: rest ∧
      let reached := Machine.run (Asking.step warsaw) asked.1 (.poll call :: middle)
      let done := reached.1.step warsaw (.service (.recv env))
      let handled := outs (asked.2 ++ reached.2)
      IsNext call reached.1 ∧
        received (asked.2 ++ reached.2) = received asked.2 ++ asked.1.tx.queue ∧
        logged handled = (received asked.2 ++ asked.1.tx.queue).flatMap entriesOf ∧
        info = reached.1.system.shared.world.worker.info ∧
        received done.2 = [.getInfoAndFlush] ∧ replies done.2 = [(call, info)] ∧
        ((∀ attempts ∈ passesMade done.2, Drain.Succeeds attempts) →
          (passesMade done.2).length ≤ env.flush.deadline ∨
            Drain.Bounded reached.1.system.shared.world.worker (env.flush.deadline + 1) →
          (∀ name key f, done.1.system.shared.world.worker.file? name key = some f → f.logs = []) ∧
          ∀ name key, Settled
            (Delivery.attemptsOf (passesAmong (before ++ .poll call :: after)) name key)
            (Delivery.routed name key handled)
            (Delivery.framesOf name key (handled ++ outs done.2))) := by
  intro asked final created returned
  have orderly := run_orderly warsaw disk n m before
  have never {reply : Option OpLogInfo} {s : Asking} (events : List AskEvent)
      (isFinal : final.1 = (Machine.run (Asking.step warsaw) s events).1) (ends : Ends reply call s) :
      reply = some info := by
    have still := Machine.run_invariant_always (fun s _ => Ends reply call s)
      (fun s event _ ends => step_ends warsaw s event ends) s [] ends events
    exact ends_unique (isFinal ▸ still) returned
  rcases poll_behind warsaw orderly created with behind | refused
  · have left : ¬ Behind (received asked.2 ++ asked.1.tx.queue) call final.1 (asked.2 ++ final.2) := by
      intro both
      obtain ⟨waits, -⟩ := both
      rw [returned] at waits
      simp at waits
    rw [show final = _ from Machine.run_cons _ _ _, ← List.append_assoc] at left
    obtain ⟨middle, event, rest, rfl, holds, leaves⟩ := Machine.run_leaves _ _ _ behind after left
    have isFinal : final.1 = (Machine.run (Asking.step warsaw) (Asking.step warsaw
        (Machine.run (Asking.step warsaw) asked.1 (.poll call :: middle)).1 event).1 rest).1 := by
      simp only [final, Machine.run_cons, Machine.run_append]
    rcases step_behind warsaw event holds with still | ⟨env, rfl, order, answers⟩ | lost
    · exact absurd still leaves
    · refine ⟨middle, env, rest, rfl, ?_⟩
      intro reached done handled
      rw [List.append_assoc] at order
      obtain rfl : info = reached.1.system.shared.world.worker.info := by
        apply Option.some.inj
        apply Eq.symm
        apply never rest isFinal
        rcases answers.settled with answered | dropped
        · exact ⟨_, answered, Or.inl rfl⟩
        · exact ⟨_, dropped, Or.inr (Or.inr rfl)⟩
      obtain ⟨-, -, received', replied, -⟩ := answers_flush warsaw answers
      have entries := run_logged warsaw disk n m (before ++ .poll call :: middle)
      have among (pass : PassEnv)
          (made : passesAmong (before ++ .poll call :: middle ++ [.service (.recv env)]) pass) :
          passesAmong (before ++ .poll call :: (middle ++ .service (.recv env) :: rest)) pass := by
        obtain ⟨event, member, passes⟩ := made
        exact ⟨event, by simp only [List.mem_append, List.mem_cons] at member ⊢; tauto, passes⟩
      have settles := answer_settles warsaw disk n m (before ++ .poll call :: middle) call among
      rw [Machine.run_append] at entries settles
      exact ⟨answers.isNext, order, entries.trans (congrArg _ order), rfl, received', replied,
        settles answers⟩
    · have impossible : none = some info := by
        apply never rest isFinal
        rcases lost with unanswered | dropped
        · exact ⟨_, unanswered, Or.inl rfl⟩
        · exact ⟨_, dropped, Or.inr (Or.inr rfl)⟩
      cases impossible
  · have impossible := never after rfl refused
    cases impossible

end Warsaw

/-- A definition and an entry are in the channel when the call is made. -/
def twoAhead : List AskEvent :=
  [.service (.other (.logDefinition plainOpLogDefinition)), .service (.other (.log ⟨"a", "one", 0⟩))]

def receive : AskEvent := .service (.recv ⟨0, flushEnv⟩)

def askedTwo : Asking × List AskOutput :=
  Machine.run (Asking.step warsawAtEpoch) (.start (fun _ => none) 0 1) twoAhead

def reachedTwo : Asking × List AskOutput :=
  Machine.run (Asking.step warsawAtEpoch) askedTwo.1 [.poll 0, receive, receive]

def answeredTwo : Asking × List AskOutput := reachedTwo.1.step warsawAtEpoch receive

/-- The entry is in the channel when the call is made, and in a frame when it is answered. -/
theorem get_info_is_a_barrier_two :
    IsNext 0 reachedTwo.1 ∧ (received (askedTwo.2 ++ reachedTwo.2)).length = 2 ∧
      replies answeredTwo.2 = [(0, ⟨1, 1⟩)] ∧
      (∀ name key f, answeredTwo.1.system.shared.world.worker.file? name key = some f → f.logs = []) ∧
      Settled (Delivery.attemptsOf (passesAmong (twoAhead ++ [.poll 0, receive, receive, receive,
          .poll 0, .poll 0])) "a" "logs/a.log")
        (Delivery.routed "a" "logs/a.log" (outs (askedTwo.2 ++ reachedTwo.2)))
        (Delivery.framesOf "a" "logs/a.log"
          (outs (askedTwo.2 ++ reachedTwo.2) ++ outs answeredTwo.2)) := by
  obtain ⟨middle, env, rest, split, isNext, past, -, -, -, replied, settles⟩ :=
    get_info_is_a_barrier warsawAtEpoch (fun _ => none) 0 1 twoAhead
      [receive, receive, receive, .poll 0, .poll 0] 0 ⟨1, 1⟩ (by decide +kernel) (by decide +kernel)
  have two : (received (askedTwo.2 ++ reachedTwo.2)).length = 2 := by decide +kernel
  -- two messages have been received when the call is answered
  have reached : middle = [receive, receive] ∧ env = ⟨0, flushEnv⟩ := by
    replace past := congrArg List.length past
    rcases middle with _ | ⟨a, _ | ⟨b, _ | ⟨c, middle⟩⟩⟩
    · exact absurd past (by decide +kernel)
    · simp only [List.cons_append, List.nil_append, List.cons.injEq] at split
      obtain ⟨rfl, -⟩ := split
      exact absurd past (by decide +kernel)
    · simp [receive] at split ⊢
      tauto
    · simp only [List.cons_append, List.cons.injEq] at split
      have member : AskEvent.service (.recv env) ∈ [AskEvent.poll 0, .poll 0] := by
        rw [split.2.2.2]
        simp
      simp at member
  obtain ⟨rfl, rfl⟩ := reached
  have succeeds : ∀ attempts ∈ passesMade answeredTwo.2, Drain.Succeeds attempts := by
    unfold Drain.Succeeds
    decide +kernel
  obtain ⟨empty, settled⟩ := settles succeeds (Or.inl (by decide +kernel))
  exact ⟨isNext, two, replied, empty, settled "a" "logs/a.log"⟩

end OpLog.Guarantees.Replies
