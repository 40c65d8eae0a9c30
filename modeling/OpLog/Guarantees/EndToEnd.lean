import Mathlib.Data.String.Basic
import OpLog.Guarantees.Pipeline

/-!
# No entry disappears unreported

Two counts of drops are put one behind the other: the notice of a full channel is an ordinary
entry of the queue, and the queue counts each entry it drops as one. With the weight of an
entry being what it stands for, one or the count of a notice, the weight of a pipeline and the
calls made differ by what was lost on the way. That amount never shrinks, and the steps that
raise it are known exactly.
-/
namespace OpLog.Guarantees.EndToEnd
open Library Source Format Conservation Accepted QueueCap Preservation

/-! ## Counting -/

/-- The callers' entries in the channel, in the queue or in a frame of the file. -/
def present (s : Pipeline) : Nat :=
  total Origin.callers s.channel + total Origin.callers s.queue +
    total (fun f => total Origin.callers f.origins) s.frames

/-- The callers' entries that are nowhere any more. -/
def missing (s : Pipeline) : Nat := s.calls - present s

/-- The drops that are still counted, and those that a notice in the channel, in the queue or in
a frame of the file tells of. -/
def accounted (s : Pipeline) : Nat :=
  s.senders.shared.droppedLogs + s.file.droppedLogs +
    (total Origin.count s.channel + total Origin.count s.queue +
      total (fun f => total Origin.count f.origins + f.backlog) s.frames)

/-- Everything in the pipeline and in the hands of its threads. -/
def weight (s : Pipeline) : Nat :=
  s.senders.shared.droppedLogs + total held s.senders.threads + s.file.droppedLogs +
    (total Origin.weight s.channel + total Origin.weight s.queue +
      total StoredFrame.weight s.frames)

theorem total_weight (origins : List Origin) :
    total Origin.weight origins = total Origin.callers origins + total Origin.count origins :=
  total_add Origin.callers Origin.count origins

theorem weight_eq (s : Pipeline) :
    weight s = present s + accounted s + total held s.senders.threads := by
  have frames : total StoredFrame.weight s.frames =
      total (fun f => total Origin.callers f.origins) s.frames +
        total (fun f => total Origin.count f.origins + f.backlog) s.frames := by
    rw [← total_add]
    refine congrArg (fun amount => total amount s.frames) (funext fun f => ?_)
    rw [StoredFrame.weight, total_weight, Nat.add_assoc]
  unfold weight present accounted
  rw [frames, total_weight, total_weight]
  omega

/-- A thread's outputs weigh what the channel accepted. -/
theorem total_originOf (out : List SendOutput) :
    total Origin.weight (out.flatMap originOf) = entries out + reported out := by
  unfold entries reported
  rw [total_flatMap, ← total_add]
  refine congrArg (fun amount => total amount out) (funext fun o => ?_)
  cases o with
  | called data => rfl
  | notice data pending =>
    simp only [originOf, total_cons, total_nil, Origin.weight, Origin.callers, Origin.count]
    omega
  | entry data => rfl

/-! ## The invariant -/

structure Tracked (s : Pipeline) : Prop where
  marked : Marked s.senders s.channel
  queue : s.queue.length = s.file.logs.length
  queued : ∀ o ∈ s.queue, 1 ≤ o.weight
  capped : ∀ f ∈ s.file.live, Capped f
  kept : Kept (s.frames.map (·.bytes)) s.file.disk
  filled : ∀ f ∈ s.frames, 1 ≤ StoredFrame.weight f
  verified : ∀ f ∈ s.file.live, f.tailVerified = true → ∀ c ∈ s.file.disk, Settled c

/-- What the calls made exceed the weight by. -/
def Balanced (s : Pipeline) (lost : Nat) : Prop := Tracked s ∧ s.calls = weight s + lost

/-! ## Steps of the senders -/

section Steps
variable (warsaw : DateTimeUtc → LocalDateTime) (capacity : Nat) {name : String}

/-- Around the threads nothing of weight comes in. -/
theorem weight_control (n : Nat) : total Origin.weight (List.replicate n .control) = 0 := by
  refine total_eq_zero _ _ fun o member => ?_
  rw [List.eq_of_mem_replicate member]
  rfl

/-- What the threads take in goes to the channel, to the counter, or stays with them. -/
theorem sender_conserves (senders : Senders) (event : SendEvent) :
    let out := senders.step capacity event
    out.1.shared.droppedLogs + total held out.1.threads +
        total Origin.weight (entered senders out.1 out.2 event) =
      senders.shared.droppedLogs + total held senders.threads + Conservation.calls out.2 := by
  cases event with
  | call thread data =>
    dsimp only [entered]
    rw [total_originOf]
    exact Threads.advance_conserves (SendLog.call data) (·.droppedLogs) held Conservation.calls
      (fun out => entries out + reported out) ⟨rfl, rfl⟩ (call_conserves data) senders thread
  | advance thread =>
    dsimp only [entered]
    rw [total_originOf]
    exact Threads.advance_conserves (SendLog.step capacity) (·.droppedLogs) held Conservation.calls
      (fun out => entries out + reported out) ⟨rfl, rfl⟩ (step_conserves capacity) senders thread
  | send msg =>
    dsimp only [entered]
    rw [weight_control]
    simp only [Senders.step]
    split <;> rfl
  | _ =>
    dsimp only [entered]
    rw [weight_control]
    rfl

theorem sender_balanced {s : Pipeline} {lost : Nat} (balanced : Balanced s lost) (event : SendEvent)
    (admitted : FromCallers name event) :
    Balanced (s.step warsaw capacity (.sender event admitted)).1 lost := by
  obtain ⟨tracked, calls_eq⟩ := balanced
  have marked := sender_marked capacity tracked.marked admitted
  have kept := sender_conserves capacity s.senders event
  refine ⟨{ tracked with marked }, ?_⟩
  unfold weight at calls_eq ⊢
  unfold Pipeline.step
  dsimp only at kept ⊢
  rw [total_append]
  omega

/-! ## Additions -/

/-- The queue's origins after the `n` oldest entries went. -/
theorem follow_eq {queue : List Origin} {file : FileState} (n : Nat)
    (left : file.logs.length = queue.length - n) (bound : n ≤ queue.length) :
    follow queue file = queue.drop n := by
  unfold follow
  rw [left, Nat.sub_sub_self bound]

/-- An entry joins the queue and the `n` oldest go. -/
theorem follow_addition {queue : List Origin} {file : FileState} {n : Nat} (origin : Origin)
    (bound : n ≤ queue.length) (length : file.logs.length = queue.length + 1 - n) :
    follow (queue ++ [origin]) file = queue.drop n ++ [origin] := by
  rw [follow_eq n (by rw [length, List.length_append, List.length_singleton])
    (by rw [List.length_append]; omega), List.drop_append_of_le_length bound]

/-- What dropping loses: all that an entry stands for beyond one. -/
def excess (o : Origin) : Nat := o.weight - 1

theorem total_excess {queue : List Origin} (queued : ∀ o ∈ queue, 1 ≤ o.weight) :
    total Origin.weight queue = queue.length + total excess queue := by
  induction queue with
  | nil => rfl
  | cons o queue ih =>
    have first := queued o List.mem_cons_self
    have rest := ih fun o member => queued o (List.mem_cons_of_mem _ member)
    simp only [total_cons, rest, List.length_cons, excess]
    omega

/-- The entries that go when `entry` comes stand for one each. -/
def OnesGo (s : Pipeline) (entry : String) : Prop :=
  ∀ i count, s.queue[i]? = some (.notice count) → 2 ≤ count →
    total byteLen ((s.file.logs ++ [entry]).drop i) ≤ QUEUE_MAX_BYTES

theorem fits_of_le {logs : List String} {n i : Nat} (fits : Fits (logs.drop n)) (later : n ≤ i)
    (inside : i + 1 < logs.length) : total byteLen (logs.drop i) ≤ QUEUE_MAX_BYTES := by
  rcases fits with under | single
  · have split : total byteLen (logs.drop n) =
        total byteLen ((logs.drop n).take (i - n)) + total byteLen (logs.drop i) := by
      rw [← total_append, ← Nat.add_sub_cancel' later, ← List.drop_drop, Nat.add_sub_cancel_left,
        List.take_append_drop]
    omega
  · rw [List.length_drop] at single
    omega

theorem excess_iff {s : Pipeline} (tracked : Tracked s) {entry : String} {n : Nat}
    (least : IsLeast {n | Fits ((s.file.logs ++ [entry]).drop n)} n) (bound : n ≤ s.queue.length) :
    total excess (s.queue.take n) = 0 ↔ OnesGo s entry := by
  constructor
  · intro none i count there heavy
    have inside := (List.getElem?_eq_some_iff.mp there).1
    have length := tracked.queue
    refine fits_of_le least.1 ?_ (by rw [List.length_append, List.length_singleton]; omega)
    -- an entry that goes has no excess
    by_contra gone
    have member : Origin.notice count ∈ s.queue.take n :=
      List.mem_of_getElem? (by rw [List.getElem?_take_of_lt (Nat.lt_of_not_le gone)]; exact there)
    have over_one := le_total excess member
    simp only [excess, Origin.weight, Origin.callers, Origin.count] at over_one
    omega
  · intro ones
    refine total_eq_zero _ _ fun o member => ?_
    obtain ⟨i, inside, rfl⟩ := List.mem_take_iff_getElem.mp member
    have there := List.getElem?_eq_getElem (Nat.lt_of_lt_of_le inside (Nat.min_le_right _ _))
    cases origin : s.queue[i] with
    | caller => rfl
    | control => rfl
    | notice count =>
      rw [origin] at there
      by_contra heavy
      have over_one : 2 ≤ count := by
        simp only [excess, Origin.weight, Origin.callers, Origin.count] at heavy
        omega
      have early := least.2 (Or.inl (ones i count there over_one))
      omega

/-- The receiver takes the first message off the channel. -/
theorem recv_eq (senders : Senders) :
    (senders.step capacity .recv).1 =
      senders.withTx { senders.shared.tx with queue := senders.shared.tx.queue.tail } := by
  obtain ⟨⟨⟨queue, reserved, closed⟩, handle, droppedLogs⟩, threads⟩ := senders
  cases queue <;> rfl

/-- What an addition makes of the file: the least number of the oldest entries goes. -/
theorem addition_spec {s : Pipeline} (tracked : Tracked s) (d : LogDefinition) (r : Route)
    (now : Instant) :
    let file := (s.file.step warsaw (.queue d r.logName r.path r.entry now)).1
    (∀ f ∈ file.live, Capped f ∧
      (f.tailVerified = true → ∀ c ∈ s.file.disk, Settled c)) ∧
    ∃ n, IsLeast {n | Fits ((s.file.logs ++ [r.entry]).drop n)} n ∧ n ≤ s.queue.length ∧
      file.logs.length = s.queue.length + 1 - n ∧
      file.droppedLogs = s.file.droppedLogs + n := by
  intro file
  have capped_live (f : LogFile) (same : s.file.live = some f) : Capped f := tracked.capped f same
  obtain ⟨stored, counted⟩ := Delivery.getLogFile_queue d s.file.live r.logName r.path now
  have some_left :=
    LogFile.addToLog_ne_nil (d.getLogFile s.file.live r.logName r.path now) r.entry now
  obtain ⟨-, capped, n, least, logs, dropped⟩ :=
    addToLog_exact (capped_getLogFile d capped_live r.logName r.path now) r.entry now
  rw [show _ = s.file.logs from stored] at least logs
  rw [show _ = s.file.droppedLogs from counted] at dropped
  have length : file.logs.length = s.queue.length + 1 - n := by
    rw [show file.logs = _ from logs, List.length_drop, List.length_append, tracked.queue,
      List.length_singleton]
  constructor
  · intro f same
    cases same
    refine ⟨capped, fun verified => ?_⟩
    rw [FileState.queue_tailVerified] at verified
    cases live : s.file.live with
    | none =>
      rw [live] at verified
      cases verified
    | some f =>
      rw [live] at verified
      exact tracked.verified f live verified
  · have pos : 0 < file.logs.length := List.length_pos_iff.mpr some_left
    exact ⟨n, least, by omega, length, dropped⟩

/-- The rest of the channel stays marked. -/
theorem marked_rest {senders : Senders} {channel : List Origin} (marked : Marked senders channel) :
    Marked (senders.step capacity .recv).1 channel.tail := by
  rw [recv_eq]
  refine ⟨?_, marked.waiting⟩
  have messages := marked.channel
  unfold Senders.withTx
  dsimp only
  generalize senders.shared.tx.queue = msgs at messages ⊢
  cases messages with
  | nil => exact .nil
  | cons first rest => exact rest

theorem weight_recv (senders : Senders) :
    (senders.step capacity .recv).1.shared.droppedLogs = senders.shared.droppedLogs ∧
      (senders.step capacity .recv).1.threads = senders.threads := by
  rw [recv_eq]
  exact ⟨rfl, rfl⟩

variable (name) in
/-- The worker receives an entry: what it drops for that counts for one each. -/
theorem entry_measured {s : Pipeline} {lost : Nat} (balanced : Balanced s lost) (d : LogDefinition)
    (now : Instant) {data : OpLogData} {msgs : List OpLogMessage} {origin : Origin}
    {channel : List Origin} (queued : s.senders.shared.tx.queue = .log data :: msgs)
    (marks : s.channel = origin :: channel) (some_weight : 1 ≤ origin.weight) :
    ∃ extra,
      Balanced (s.step warsaw capacity (.receive d now : PipelineEvent name)).1 (lost + extra) ∧
      (extra = 0 ↔ OnesGo s (d.route data.logName (warsaw data.date) data.log).entry) := by
  obtain ⟨tracked, calls_eq⟩ := balanced
  have rest := marked_rest capacity tracked.marked
  have counted := weight_recv capacity s.senders
  have added := addition_spec warsaw tracked d (d.route data.logName (warsaw data.date) data.log) now
  unfold Pipeline.step
  simp only [queued, marks, List.tail_cons] at rest ⊢
  generalize (s.senders.step capacity .recv).1 = senders at rest counted ⊢
  have disk : (s.file.step warsaw (.queue d (d.route data.logName (warsaw data.date) data.log).logName
    (d.route data.logName (warsaw data.date) data.log).path
    (d.route data.logName (warsaw data.date) data.log).entry now)).1.disk = s.file.disk := rfl
  generalize s.file.step warsaw _ = stepped at added disk ⊢
  obtain ⟨file, writes⟩ := stepped
  obtain ⟨live, n, least, bound, length, dropped⟩ := added
  dsimp only at live length dropped disk ⊢
  have left := follow_addition origin bound length
  refine ⟨total excess (s.queue.take n), ⟨⟨rest, ?_, ?_, fun f same => (live f same).1, ?_,
    tracked.filled, ?_⟩, ?_⟩, excess_iff tracked least bound⟩
  · rw [left, length, List.length_append, List.length_drop, List.length_singleton]
    omega
  · intro o member
    rw [left] at member
    rcases List.mem_append.mp member with old | new
    · exact tracked.queued o (List.mem_of_mem_drop old)
    · rw [List.mem_singleton.mp new]
      exact some_weight
  · rw [disk]
    exact tracked.kept
  · intro f same verified
    rw [disk]
    exact (live f same).2 verified
  · have gone : total Origin.weight (s.queue.take n) = n + total excess (s.queue.take n) := by
      rw [total_excess fun o member => tracked.queued o (List.mem_of_mem_take member),
        List.length_take, Nat.min_eq_left bound]
    have whole : total Origin.weight s.queue =
        total Origin.weight (s.queue.take n) + total Origin.weight (s.queue.drop n) := by
      rw [← total_append, List.take_append_drop]
    unfold weight at calls_eq ⊢
    rw [marks, total_cons, whole, gone] at calls_eq
    dsimp only
    rw [left, total_append, total_cons, total_nil, counted.1, counted.2, dropped]
    omega

/-- The worker receives a message without entries, or finds none. -/
theorem silent_balanced {s : Pipeline} {lost : Nat} (balanced : Balanced s lost) (d : LogDefinition)
    (now : Instant) (silent : ∀ data, s.senders.shared.tx.queue.head? ≠ some (.log data))
    (weightless : total Origin.weight s.channel = total Origin.weight s.channel.tail) :
    Balanced (s.step warsaw capacity (.receive d now : PipelineEvent name)).1 lost := by
  obtain ⟨tracked, calls_eq⟩ := balanced
  have marked := marked_rest capacity tracked.marked
  have counted := weight_recv capacity s.senders
  unfold Pipeline.step
  dsimp only
  split
  · rename_i data msgs origin channel queued marks
    exact absurd (by rw [queued, List.head?_cons]) (silent data)
  · refine ⟨{ tracked with marked }, ?_⟩
    unfold weight at calls_eq ⊢
    dsimp only
    rw [counted.1, counted.2, ← weightless]
    exact calls_eq

/-- No entry that goes when the worker receives the next message stands for more than one. -/
def ReceivesWhole (s : Pipeline) (d : LogDefinition) : Prop :=
  ∀ data, s.senders.shared.tx.queue.head? = some (.log data) →
    OnesGo s (d.route data.logName (warsaw data.date) data.log).entry

theorem receive_measured {s : Pipeline} {lost : Nat} (balanced : Balanced s lost) (d : LogDefinition)
    (now : Instant) :
    ∃ extra,
      Balanced (s.step warsaw capacity (.receive d now : PipelineEvent name)).1 (lost + extra) ∧
      (extra = 0 ↔ ReceivesWhole warsaw s d) := by
  have entry {data : OpLogData} {msgs : List OpLogMessage} {origin : Origin} {channel : List Origin}
      (queued : s.senders.shared.tx.queue = .log data :: msgs) (marks : s.channel = origin :: channel)
      (some_weight : 1 ≤ origin.weight) :
      ∃ extra,
        Balanced (s.step warsaw capacity (.receive d now : PipelineEvent name)).1 (lost + extra) ∧
        (extra = 0 ↔ ReceivesWhole warsaw s d) := by
    obtain ⟨extra, balanced', whole⟩ :=
      entry_measured warsaw capacity name balanced d now queued marks some_weight
    refine ⟨extra, balanced', whole.trans ?_⟩
    unfold ReceivesWhole
    simp [queued]
  have silent (none : ∀ data, s.senders.shared.tx.queue.head? ≠ some (.log data))
      (weightless : total Origin.weight s.channel = total Origin.weight s.channel.tail) :
      ∃ extra,
        Balanced (s.step warsaw capacity (.receive d now : PipelineEvent name)).1 (lost + extra) ∧
        (extra = 0 ↔ ReceivesWhole warsaw s d) :=
    ⟨0, silent_balanced warsaw capacity balanced d now none weightless,
      iff_of_true rfl fun data there => absurd there (none data)⟩
  have messages := balanced.1.marked.channel
  generalize queued : s.senders.shared.tx.queue = msgs, marks : s.channel = channel at messages
  cases messages with
  | nil => exact silent (by simp [queued]) (by rw [marks, List.tail_nil])
  | cons first rest =>
    cases first with
    | caller data => exact entry queued marks (Nat.le_refl 1)
    | notice data count some_drops =>
      refine entry queued marks ?_
      simp only [Origin.weight, Origin.callers, Origin.count]
      omega
    | control msg without =>
      refine silent ?_ ?_
      · intro data there
        rw [queued, List.head?_cons, Option.some.injEq] at there
        rw [there] at without
        cases without
      · rw [marks]
        exact Nat.zero_add _

/-! ## Attempts -/

/-- The attempt does not truncate a file that holds frames. -/
def KeepsFrames (s : Pipeline) (flushInterval : Duration) (env : AttemptEnv) : Prop :=
  s.frames = [] ∨ ∀ f ∈ s.file.live, ¬ Recreates f flushInterval env

/-- What a `File::create` leaves of the frames weighs as much as before exactly if it finds
none. -/
theorem creates_measured {s : Pipeline} (tracked : Tracked s) (d : LogDefinition)
    (flushInterval : Duration) (env : AttemptEnv) :
    ∃ extra,
      total StoredFrame.weight s.frames =
        total StoredFrame.weight (if s.creates warsaw d flushInterval env then [] else s.frames) +
          extra ∧
      (extra = 0 ↔ KeepsFrames s flushInterval env) := by
  unfold KeepsFrames
  by_cases empty : s.frames = []
  · exact ⟨0, by simp [empty], iff_of_true rfl (Or.inl empty)⟩
  · have keeps : s.creates warsaw d flushInterval env ↔
        ∃ f ∈ s.file.live, Recreates f flushInterval env := by
      obtain ⟨c, disk, some_bytes⟩ := tracked.kept.content (by simpa using empty)
      unfold Pipeline.creates FileState.attempt
      rw [disk]
      exact exists_congr fun f => and_congr_right fun _ =>
        creates_iff f flushInterval _ env some_bytes
    by_cases created : s.creates warsaw d flushInterval env
    · refine ⟨total StoredFrame.weight s.frames, by rw [if_pos created, total_nil, Nat.zero_add], ?_⟩
      obtain ⟨f, live, recreates⟩ := keeps.mp created
      refine iff_of_false ?_ ?_
      · obtain ⟨frame, member⟩ := List.exists_mem_of_ne_nil _ empty
        have heavy := tracked.filled frame member
        have part := le_total StoredFrame.weight member
        omega
      · rintro (none | never)
        · exact empty none
        · exact never f live recreates
    · refine ⟨0, by rw [if_neg created, Nat.add_zero], iff_of_true rfl (Or.inr ?_)⟩
      intro f live recreates
      exact created (keeps.mpr ⟨f, live, recreates⟩)

theorem capped_write {file : FileState} (capped : ∀ f ∈ file.live, Capped f) (d : LogDefinition)
    (flushInterval : Duration) (env : AttemptEnv) :
    ∀ f ∈ (file.step warsaw (.write d flushInterval env)).1.live, Capped f := by
  intro f member
  unfold FileState.step at member
  cases live : file.live with
  | none =>
    simp only [live] at member
    cases member
  | some g =>
    simp only [live] at member
    cases member
    exact capped_attempt warsaw (capped g live) d flushInterval env file.disk

/-- The pipeline behind an attempt whose file held `found` when it was open. -/
def attempted (s : Pipeline) (found : List StoredFrame) (stepped : FileState × List FileWrite) :
    Pipeline :=
  { s with
    file := stepped.1
    queue := follow s.queue stepped.1
    frames := found ++ stepped.2.map s.stored }

/-- The worker's part of the weight is what it was with `found` in the file. -/
def Conserved (s : Pipeline) (found : List StoredFrame) (s' : Pipeline) : Prop :=
  s'.file.droppedLogs + total Origin.weight s'.queue + total StoredFrame.weight s'.frames =
    s.file.droppedLogs + total Origin.weight s.queue + total StoredFrame.weight found

section Attempts
variable {s : Pipeline} {f : LogFile} {found : List StoredFrame}

theorem queue_length (tracked : Tracked s) (live : s.file.live = some f) :
    s.queue.length = f.logs.length := by
  rw [tracked.queue, FileState.logs, live]
  rfl

/-- An attempt that wrote nothing. -/
theorem unwritten_balanced (tracked : Tracked s) (live : s.file.live = some f) {f' : LogFile}
    {disk : Option Bytes} (logs : f'.logs = f.logs) (dropped : f'.droppedLogs = f.droppedLogs)
    (capped : Capped f') (filled : ∀ f ∈ found, 1 ≤ StoredFrame.weight f)
    (kept : Kept (found.map (·.bytes)) disk)
    (verified : f'.tailVerified = true → ∀ c ∈ disk, Settled c) :
    let s' := attempted s found (⟨some f', disk⟩, [])
    Tracked s' ∧ Conserved s found s' := by
  have length := queue_length tracked live
  have left : follow s.queue ⟨some f', disk⟩ = s.queue := by
    rw [follow_eq 0 (by rw [length]; exact congrArg List.length logs) (Nat.zero_le _), List.drop_zero]
  have counted : s.file.droppedLogs = f.droppedLogs := by
    rw [FileState.droppedLogs, live]
    rfl
  unfold attempted Conserved
  simp only [left, List.map_nil, List.append_nil]
  refine ⟨⟨tracked.marked, ?_, tracked.queued, ?_, kept, filled, ?_⟩, ?_⟩
  · rw [length]
    exact congrArg List.length logs.symm
  · rintro _ ⟨⟩
    exact capped
  · rintro _ ⟨⟩
    exact verified
  · rw [counted, ← dropped]
    rfl

/-- An attempt that wrote a frame: what it took from the queue and the count is in the frame. -/
theorem written_balanced (tracked : Tracked s) (live : s.file.live = some f) {f' : LogFile}
    {written : Written} {c : Bytes} (consumed : written.entries = f.logs.take written.frame.consumed)
    (bound : written.frame.consumed ≤ f.logs.length) (progress : 0 < written.frame.consumed)
    (logs : f'.logs = f.logs.drop written.frame.consumed) (dropped : f'.droppedLogs = 0)
    (capped : Capped f') (filled : ∀ f ∈ found, 1 ≤ StoredFrame.weight f)
    (kept : Kept (found.map (·.bytes) ++ [written.frame.bytes]) (some c)) (settled : Settled c) :
    let s' := attempted s found (⟨some f', some c⟩, [⟨s.file.disk, written, some c⟩])
    Tracked s' ∧ Conserved s found s' := by
  have length := queue_length tracked live
  have taken : written.entries.length = written.frame.consumed := by
    rw [consumed, List.length_take, Nat.min_eq_left bound]
  have after : (FileState.mk (some f') (some c)).logs = f.logs.drop written.frame.consumed := logs
  have left : follow s.queue ⟨some f', some c⟩ = s.queue.drop written.frame.consumed := by
    refine follow_eq _ ?_ (length ▸ bound)
    rw [after, length, List.length_drop]
  have frame_weight : StoredFrame.weight (s.stored ⟨s.file.disk, written, some c⟩) =
      total Origin.weight (s.queue.take written.frame.consumed) + s.file.droppedLogs := by
    rw [← taken]
    rfl
  have parts : total Origin.weight s.queue =
      total Origin.weight (s.queue.take written.frame.consumed) +
        total Origin.weight (s.queue.drop written.frame.consumed) := by
    rw [← total_append, List.take_append_drop]
  have heavy := total_excess fun o member =>
    tracked.queued o (List.mem_of_mem_take (i := written.frame.consumed) member)
  rw [List.length_take, length, Nat.min_eq_left bound] at heavy
  unfold attempted Conserved
  simp only [left, List.map_cons, List.map_nil]
  refine ⟨⟨tracked.marked, ?_, ?_, ?_, ?_, ?_, ?_⟩, ?_⟩
  · rw [after, List.length_drop, List.length_drop, length]
  · exact fun o member => tracked.queued o (List.mem_of_mem_drop member)
  · rintro _ ⟨⟩
    exact capped
  · rw [List.map_append]
    exact kept
  · intro frame member
    rcases List.mem_append.mp member with old | new
    · exact filled frame old
    · rw [List.mem_singleton.mp new, frame_weight]
      omega
  · rintro _ _ _ _ ⟨⟩
    exact settled
  · have none_counted : (FileState.mk (some f') (some c)).droppedLogs = 0 := dropped
    rw [none_counted, total_append, total_cons, total_nil, frame_weight, parts]
    omega

end Attempts

/-- What an attempt makes of a pipeline whose frames are `found` when the file is open. -/
theorem attempt_balanced {s : Pipeline} {f : LogFile} (tracked : Tracked s) (live : s.file.live = some f)
    (d : LogDefinition) (flushInterval : Duration) (env : AttemptEnv) (found : List StoredFrame)
    (open_frames : found.map (·.bytes) =
      if .create ∈ (FileState.attempt warsaw f d flushInterval env s.file.disk).ops then []
      else s.frames.map (·.bytes))
    (filled : ∀ f ∈ found, 1 ≤ StoredFrame.weight f) :
    let s' := attempted s found (s.file.step warsaw (.write d flushInterval env))
    Tracked s' ∧ Conserved s found s' := by
  have capped := capped_write warsaw tracked.capped d flushInterval env
  rcases attempt_kept flushInterval (d.backlogNotice warsaw f env.utcNow) env tracked.kept
    (tracked.verified f live) with
    ⟨skipped, none⟩ | ⟨error, failed, kept⟩ |
      ⟨written, c, returned, consumed, progress, bound, after, settled, kept⟩
  · have same := FileState.step_write_ok live skipped
    dsimp only at same
    rw [same] at capped ⊢
    refine unwritten_balanced tracked live ?_ ?_ (capped _ rfl) filled ?_ ?_
    · rw [LogFile.afterSkip_eq]
    · rw [LogFile.afterSkip_eq]
    · rw [open_frames, none, if_neg List.not_mem_nil]
      exact tracked.kept
    · rw [LogFile.afterSkip_eq, none]
      exact tracked.verified f live
  · rw [FileState.step_write_error live failed] at capped ⊢
    refine unwritten_balanced tracked live rfl rfl (capped _ rfl) filled ?_ (fun flag => by cases flag)
    rw [open_frames]
    exact kept
  · have same := FileState.step_write_ok live returned
    dsimp only at same
    rw [after] at same
    rw [same] at capped ⊢
    rw [← open_frames] at kept
    exact written_balanced tracked live consumed bound progress rfl rfl (capped _ rfl) filled kept settled

theorem write_measured {s : Pipeline} {lost : Nat} (balanced : Balanced s lost) (d : LogDefinition)
    (flushInterval : Duration) (env : AttemptEnv) :
    ∃ extra,
      Balanced (s.step warsaw capacity (.write d flushInterval env : PipelineEvent name)).1
        (lost + extra) ∧
      (extra = 0 ↔ KeepsFrames s flushInterval env) := by
  obtain ⟨tracked, calls_eq⟩ := balanced
  obtain ⟨extra, frames_eq, keeps⟩ := creates_measured warsaw tracked d flushInterval env
  refine ⟨extra, ?_, keeps⟩
  cases live : s.file.live with
  | none =>
    have idle : s.file.step warsaw (.write d flushInterval env) = (s.file, []) := by
      unfold FileState.step
      simp only [live]
    have fresh : ¬ s.creates warsaw d flushInterval env := by
      unfold Pipeline.creates
      simp [live]
    have left : follow s.queue s.file = s.queue := by
      rw [follow_eq 0 (by rw [tracked.queue, Nat.sub_zero]) (Nat.zero_le _), List.drop_zero]
    have nothing : extra = 0 := by
      rw [if_neg fresh] at frames_eq
      omega
    unfold Pipeline.step
    simp only [idle, left, if_neg fresh, List.map_nil, List.append_nil, nothing, Nat.add_zero]
    exact ⟨tracked, calls_eq⟩
  | some f =>
    have created : s.creates warsaw d flushInterval env ↔
        .create ∈ (FileState.attempt warsaw f d flushInterval env s.file.disk).ops := by
      unfold Pipeline.creates
      simp [live]
    have filled : ∀ frame ∈ (if s.creates warsaw d flushInterval env then [] else s.frames),
        1 ≤ frame.weight := by
      split
      · simp
      · exact tracked.filled
    obtain ⟨tracked', kept⟩ := attempt_balanced warsaw tracked live d flushInterval env _
      (by simp only [created]; split <;> rfl) filled
    refine ⟨tracked', ?_⟩
    unfold Conserved attempted at kept
    unfold weight at calls_eq ⊢
    unfold Pipeline.step
    dsimp only at kept ⊢
    omega

/-! ## Clean-up -/

/-- Clean-up forgets a `LogFile` only without entries, and then without a count. -/
theorem cleanUp_balanced {s : Pipeline} {lost : Nat} (balanced : Balanced s lost) (now : Instant) :
    Balanced (s.step warsaw capacity (.cleanUp now : PipelineEvent name)).1 lost := by
  obtain ⟨tracked, calls_eq⟩ := balanced
  have either : s.file.live.filter (·.inUse now) = s.file.live ∨
      s.file.live.filter (·.inUse now) = none ∧ s.file.logs = [] ∧ s.file.droppedLogs = 0 := by
    cases live : s.file.live with
    | none => exact Or.inl rfl
    | some f =>
      by_cases used : f.inUse now = true
      · exact Or.inl (by simp [used])
      · have empty : f.logs = [] := by
          by_contra some_logs
          exact used (by simp [LogFile.inUse, some_logs])
        have counted : f.droppedLogs = 0 := by
          by_contra some_dropped
          exact (tracked.capped f live).counted (Nat.pos_of_ne_zero some_dropped) empty
        refine Or.inr ⟨by simp [used], ?_, ?_⟩
        · rw [FileState.logs, live, Option.elim_some, empty]
        · rw [FileState.droppedLogs, live, Option.elim_some, counted]
  have length := tracked.queue
  unfold Pipeline.step FileState.step
  dsimp only
  rcases either with same | ⟨gone, empty, uncounted⟩
  · have left : follow s.queue s.file = s.queue := by
      rw [follow_eq 0 (by rw [length, Nat.sub_zero]) (Nat.zero_le _), List.drop_zero]
    rw [same]
    exact ⟨{ tracked with queue := by rw [left, length], queued := by rw [left]; exact tracked.queued },
      by rw [calls_eq]; unfold weight; rw [left]⟩
  · rw [empty, List.length_nil] at length
    have none := List.eq_nil_of_length_eq_zero length
    rw [gone, none]
    refine ⟨⟨tracked.marked, rfl, by simp [follow], by simp, tracked.kept, tracked.filled, by simp⟩, ?_⟩
    rw [calls_eq]
    unfold weight
    rw [none, uncounted]
    rfl

/-! ## Runs -/

/-- The step loses no count: no notice of two or more drops goes from the queue, and no file
with frames is truncated. -/
def Lossless (s : Pipeline) : PipelineEvent name → Prop
  | .sender _ _ => True
  | .receive d _ => ReceivesWhole warsaw s d
  | .write _ flushInterval env => KeepsFrames s flushInterval env
  | .cleanUp _ => True

theorem step_measured (s : Pipeline) (event : PipelineEvent name) (lost : Nat)
    (balanced : Balanced s lost) :
    ∃ extra, Balanced (s.step warsaw capacity event).1 (lost + extra) ∧
      (extra = 0 ↔ Lossless warsaw s event) := by
  cases event with
  | sender event admitted =>
    exact ⟨0, sender_balanced warsaw capacity balanced event admitted, iff_of_true rfl trivial⟩
  | receive d now => exact receive_measured warsaw capacity balanced d now
  | write d flushInterval env => exact write_measured warsaw capacity balanced d flushInterval env
  | cleanUp now => exact ⟨0, cleanUp_balanced warsaw capacity balanced now, iff_of_true rfl trivial⟩

theorem start_balanced (n : Nat) (content : Option Bytes) : Balanced (.start n content) 0 := by
  refine ⟨⟨⟨.nil, ?_⟩, rfl, by simp [Pipeline.start], by simp [Pipeline.start, FileState.start],
    .none content, by simp [Pipeline.start], by simp [Pipeline.start, FileState.start]⟩, ?_⟩
  · intro place member
    rw [List.eq_of_mem_replicate member]
    trivial
  · unfold weight
    simp only [Pipeline.start, Senders.start, total_nil, Nat.add_zero]
    rw [total_eq_zero]
    · rfl
    · intro place member
      rw [List.eq_of_mem_replicate member]
      rfl

/-- Any run of any number of threads, of the channel and of the worker, on any content of the
file: what was lost, and when nothing was. -/
theorem run_measured (n : Nat) (content : Option Bytes) (events : List (PipelineEvent name)) :
    ∃ lost, Balanced (Machine.run (Pipeline.step warsaw capacity) (.start n content) events).1 lost ∧
      (lost = 0 ↔ Machine.Allowed (Pipeline.step warsaw capacity) (Lossless warsaw)
        (.start n content) events) := by
  obtain ⟨lost, balanced, allowed⟩ := Machine.run_measured Balanced (step_measured warsaw capacity)
    (.start n content) 0 (start_balanced n content) events
  exact ⟨lost, Nat.zero_add lost ▸ balanced, allowed⟩

/-- With no call in progress, at most as many entries are missing as are accounted for exactly
if nothing was lost. -/
theorem missing_le_iff {s : Pipeline} {lost : Nat} (balanced : Balanced s lost)
    (idle : ∀ place ∈ s.senders.threads, place = .idle) : missing s ≤ accounted s ↔ lost = 0 := by
  have calls_eq := balanced.2
  have released : total held s.senders.threads = 0 := by
    refine total_eq_zero held _ fun place member => ?_
    rw [idle place member]
    rfl
  rw [weight_eq, released] at calls_eq
  unfold missing
  omega

end Steps

/-- Any number of threads, any channel capacity, any content of the file to begin with and any
interleaving of calls, receives, additions, attempts with any outcomes and clean-ups: the frames
counted stand in the file one behind another, and whenever no call is in progress, the entries
that are neither in the channel, nor in the queue, nor in a frame are at most those accounted
for, in a counter or in a notice that is in one of these places, exactly if no step dropped a
notice of two or more drops from the queue or created a file anew that held frames. -/
theorem entries_are_accounted_iff (warsaw : DateTimeUtc → LocalDateTime) (capacity : Nat)
    (name : String) (n : Nat) (content : Option Bytes) (events : List (PipelineEvent name)) :
    let final := (Machine.run (Pipeline.step warsaw capacity) (.start n content) events).1
    Holds (final.frames.map (·.bytes)) (final.file.disk.getD []) ∧
    ((∀ place ∈ final.senders.threads, place = .idle) →
      (missing final ≤ accounted final ↔
        Machine.Allowed (Pipeline.step warsaw capacity) (Lossless warsaw) (.start n content) events)) := by
  intro final
  obtain ⟨lost, balanced, allowed⟩ := run_measured warsaw capacity n content events
  refine ⟨balanced.1.kept.holds, fun idle => ?_⟩
  rw [missing_le_iff balanced idle, allowed]

/-! ## Runs of one thread -/

def small : OpLogData := ⟨"app", "one", 0⟩

def perDay : LogDefinition := { plainDefinition "" with logType := .perDay }

/-- A call of the one thread, with the steps it has. -/
def call (data : OpLogData) (same : data.logName = "app") (steps : Nat) : List (PipelineEvent "app") :=
  .sender (.call 0 data) same :: List.replicate steps (.sender (.advance 0) trivial)

abbrev runs (s : Pipeline) (events : List (PipelineEvent "app")) : Pipeline :=
  (Machine.run (Pipeline.step warsawAtEpoch CHANNEL_CAPACITY) s events).1

/-- No call in progress, nothing promised, and these messages in the channel. -/
structure Resting (s : Pipeline) (msgs : List (OpLogMessage × Origin)) (droppedLogs calls : Nat) :
    Prop where
  senders : s.senders = ⟨⟨⟨msgs.map (·.1), 0, false⟩, true, droppedLogs⟩, [.idle]⟩
  channel : s.channel = msgs.map (·.2)
  calls : s.calls = calls

section Run
variable {s : Pipeline} {msgs : List (OpLogMessage × Origin)} {data : OpLogData} {calls : Nat}

theorem resting_accepted (resting : Resting s msgs 0 calls) (room : msgs.length < CHANNEL_CAPACITY)
    (same : data.logName = "app") :
    Resting (runs s (call data same 2)) (msgs ++ [(.log data, .caller)]) 0 (calls + 1) := by
  obtain ⟨senders, file, made, channel, queue, frames⟩ := s
  obtain ⟨rfl, rfl, rfl⟩ := resting
  constructor <;>
  simp [runs, call, Machine.run, List.replicate, Pipeline.step, Senders.step, Threads.advance,
    SendLog.call, SendLog.step, Channel.trySend, Channel.room, room, entered, originOf,
    Conservation.calls]

/-- With a drop to report the call loses its notice too, and gives the count back. -/
theorem resting_dropped {k : Nat} (resting : Resting s msgs k calls)
    (full : msgs.length = CHANNEL_CAPACITY) (same : data.logName = "app") :
    Resting (runs s (call data same (if k = 0 then 3 else 5))) msgs (k + 1) (calls + 1) := by
  obtain ⟨senders, file, made, channel, queue, frames⟩ := s
  obtain ⟨rfl, rfl, rfl⟩ := resting
  cases k with
  | zero =>
    constructor <;>
    simp [runs, call, Machine.run, List.replicate, Pipeline.step, Senders.step, Threads.advance,
      SendLog.call, SendLog.step, Channel.trySend, Channel.room, full, entered, originOf,
      Conservation.calls]
  | succ k =>
    constructor <;>
    simp [runs, call, Machine.run, List.replicate, Pipeline.step, Senders.step, Threads.advance,
      SendLog.call, SendLog.step, Channel.trySend, Channel.room, full, entered, originOf,
      Conservation.calls]

theorem resting_noticed (resting : Resting s [] 2 calls) (same : data.logName = "app") :
    Resting (runs s (call data same 3))
      [(.log (dropNotice data 2), .notice 2), (.log data, .caller)] 0 (calls + 1) := by
  obtain ⟨senders, file, made, channel, queue, frames⟩ := s
  obtain ⟨rfl, rfl, rfl⟩ := resting
  constructor <;>
  simp [runs, call, Machine.run, List.replicate, Pipeline.step, Senders.step, Threads.advance,
    SendLog.call, SendLog.step, Channel.trySend, Channel.room, CHANNEL_CAPACITY, entered, originOf,
    Conservation.calls]

theorem runs_append (s : Pipeline) (events more : List (PipelineEvent "app")) :
    runs s (events ++ more) = runs (runs s events) more := by
  unfold runs
  rw [Machine.run_append]

theorem resting_received {k : Nat} {first : List (OpLogMessage × Origin)}
    (resting : Resting s (first ++ msgs) k calls) :
    Resting (runs s (List.replicate first.length (.receive perDay 0))) msgs k calls := by
  induction first generalizing s with
  | nil => exact resting
  | cons m first ih =>
    refine ih (s := (s.step warsawAtEpoch CHANNEL_CAPACITY (.receive perDay 0 : PipelineEvent "app")).1) ?_
    obtain ⟨senders, channel, made⟩ := resting
    unfold Pipeline.step
    dsimp only
    constructor
    · split <;> simp [recv_eq, senders, Senders.withTx]
    · split <;> simp [channel]
    · split <;> exact made

/-- What puts a message into the channel, again and again. -/
theorem resting_repeated {events : List (PipelineEvent "app")} {m : OpLogMessage × Origin} {made : Nat}
    (once : ∀ {s msgs calls}, Resting s msgs 0 calls → msgs.length < CHANNEL_CAPACITY →
      Resting (runs s events) (msgs ++ [m]) 0 (calls + made))
    (n : Nat) (resting : Resting s msgs 0 calls) (room : msgs.length + n ≤ CHANNEL_CAPACITY) :
    Resting (runs s (List.replicate n events).flatten) (msgs ++ List.replicate n m) 0
      (calls + n * made) := by
  induction n generalizing s msgs calls with
  | zero =>
    rw [List.replicate_zero, List.replicate_zero, List.append_nil, Nat.zero_mul]
    exact resting
  | succ n ih =>
    have first := once resting (by omega)
    have rest := ih first (by rw [List.length_append, List.length_singleton]; omega)
    rw [List.append_assoc] at rest
    rw [List.replicate_succ, List.flatten_cons, runs_append, Nat.succ_mul, Nat.add_comm (n * made),
      ← Nat.add_assoc]
    exact rest

theorem resting_flushed (resting : Resting s msgs 0 calls) (room : msgs.length < CHANNEL_CAPACITY) :
    Resting (runs s [.sender (.other .flush) rfl]) (msgs ++ [(.flush, .control)]) 0 (calls + 0) := by
  obtain ⟨senders, file, made, channel, queue, frames⟩ := s
  obtain ⟨rfl, rfl, rfl⟩ := resting
  constructor <;>
  simp [runs, Machine.run, Pipeline.step, Senders.step, Senders.withTx, Channel.trySend, Channel.room,
    room, entered, Conservation.calls]

/-! ## A drop that is reported -/

/-- Nothing has come to the worker yet. -/
structure Untouched (s : Pipeline) : Prop where
  file : s.file = .start none
  queue : s.queue = []
  frames : s.frames = []

/-- The events lose no count in this state. -/
abbrev keeps (s : Pipeline) (events : List (PipelineEvent "app")) : Prop :=
  Machine.Allowed (Pipeline.step warsawAtEpoch CHANNEL_CAPACITY) (Lossless warsawAtEpoch) s events

theorem keeps_append (s : Pipeline) (events more : List (PipelineEvent "app")) :
    keeps s (events ++ more) ↔ keeps s events ∧ keeps (runs s events) more :=
  Machine.allowed_append s events more

theorem untouched_sent (untouched : Untouched s) {events : List (PipelineEvent "app")}
    (sent : ∀ e ∈ events, ∃ event admitted, e = .sender event admitted) :
    Untouched (runs s events) ∧ keeps s events := by
  induction events generalizing s with
  | nil => exact ⟨untouched, trivial⟩
  | cons e events ih =>
    obtain ⟨event, admitted, rfl⟩ := sent e List.mem_cons_self
    obtain ⟨file, queue, frames⟩ := untouched
    obtain ⟨rest, kept⟩ := ih (s := (s.step warsawAtEpoch CHANNEL_CAPACITY (.sender event admitted)).1)
      ⟨file, queue, frames⟩ fun e' member => sent e' (List.mem_cons_of_mem _ member)
    exact ⟨rest, trivial, kept⟩

theorem sent_call (data : OpLogData) (same : data.logName = "app") (steps : Nat) :
    ∀ e ∈ call data same steps, ∃ event admitted, e = .sender event admitted := by
  intro e member
  rcases List.mem_cons.mp member with rfl | member
  · exact ⟨_, _, rfl⟩
  · exact ⟨_, _, List.eq_of_mem_replicate member⟩

/-- Flushes are received without a trace. -/
theorem untouched_received {k : Nat} (n : Nat)
    (resting : Resting s (List.replicate n (.flush, .control) ++ msgs) k calls)
    (untouched : Untouched s) :
    Untouched (runs s (List.replicate n (.receive perDay 0))) ∧
      keeps s (List.replicate n (.receive perDay 0)) := by
  induction n generalizing s with
  | zero => exact ⟨untouched, trivial⟩
  | succ n ih =>
    have queued : s.senders.shared.tx.queue =
        .flush :: (List.replicate n (OpLogMessage.flush, Origin.control) ++ msgs).map (·.1) := by
      rw [resting.senders]
      rfl
    have received := resting_received (show Resting s ([_] ++ _) k calls from resting)
    obtain ⟨rest, kept⟩ := ih (s := (s.step warsawAtEpoch CHANNEL_CAPACITY
      (.receive perDay 0 : PipelineEvent "app")).1) received (by
        unfold Pipeline.step
        simp only [queued]
        exact ⟨untouched.file, untouched.queue, untouched.frames⟩)
    refine ⟨rest, ?_, kept⟩
    intro data there
    rw [queued] at there
    cases there

/-- Where no notice of two or more drops is queued, none goes. -/
theorem receivesWhole_of_light (light : ∀ o ∈ s.queue, o.weight ≤ 1) :
    ReceivesWhole warsawAtEpoch s perDay := by
  intro data _ i count there heavy
  have weight := light _ (List.mem_of_getElem? there)
  simp only [Origin.weight, Origin.callers, Origin.count] at weight
  omega

/-- Where `n` flushes leave room for one message, an entry takes it; the next entry is dropped. -/
def dropping (n : Nat) : List (PipelineEvent "app") :=
  (List.replicate n [.sender (.other .flush) rfl]).flatten ++ (call small rfl 2 ++ call small rfl 3)

/-- The worker receives the entry, then the third one with the notice ahead of it, and writes. -/
def reporting : List (PipelineEvent "app") :=
  .receive perDay 0 :: (call small rfl 3 ++
    [.receive perDay 0, .receive perDay 0, .write perDay 0 (storedEnv allDone)])

/-- The one drop is counted, and one entry waits. -/
def oneDropped : Pipeline :=
  ⟨⟨⟨⟨[.log small], 0, false⟩, true, 1⟩, [.idle]⟩, .start none, 2, [.caller], [], []⟩

theorem sent_dropping (n : Nat) : ∀ e ∈ dropping n, ∃ event admitted, e = .sender event admitted := by
  intro e member
  rcases List.mem_append.mp member with flushed | called
  · obtain ⟨events, there, member⟩ := List.mem_flatten.mp flushed
    rw [List.eq_of_mem_replicate there] at member
    exact ⟨_, _, List.mem_singleton.mp member⟩
  · rcases List.mem_append.mp called with accepted | dropped
    · exact sent_call small rfl 2 e accepted
    · exact sent_call small rfl 3 e dropped

theorem eq_oneDropped (resting : Resting s [(.log small, .caller)] 1 2) (untouched : Untouched s) :
    s = oneDropped := by
  obtain ⟨senders, file, made, channel, queue, frames⟩ := s
  obtain ⟨rfl, rfl, rfl⟩ := resting
  obtain ⟨rfl, rfl, rfl⟩ := untouched
  rfl

/-- Between the drop and its report the flushes are received. -/
def noticed (n : Nat) : List (PipelineEvent "app") :=
  dropping n ++ List.replicate n (.receive perDay 0) ++ reporting

theorem keeps_reporting : keeps oneDropped reporting :=
  ⟨receivesWhole_of_light (by decide +kernel), trivial, trivial, trivial, trivial,
    receivesWhole_of_light (by decide +kernel), receivesWhole_of_light (by decide +kernel),
    Or.inl (by decide +kernel), trivial⟩

theorem runs_noticed {n : Nat} (room : n + 1 = CHANNEL_CAPACITY) :
    runs (.start 1 none) (noticed n) = runs oneDropped reporting ∧ keeps (.start 1 none) (noticed n) := by
  have start : Resting (.start 1 none) [] 0 0 := ⟨rfl, rfl, rfl⟩
  have same : small.logName = "app" := rfl
  have flushed := resting_repeated resting_flushed n start (by rw [List.length_nil]; omega)
  rw [List.nil_append] at flushed
  have accepted := resting_accepted flushed (by rw [List.length_replicate]; omega) same
  have full : (List.replicate n (OpLogMessage.flush, Origin.control) ++
      [(OpLogMessage.log small, Origin.caller)]).length = CHANNEL_CAPACITY := by
    rw [List.length_append, List.length_replicate]
    exact room
  have dropped : Resting (runs (.start 1 none) (dropping n))
      (List.replicate n (.flush, .control) ++ [(.log small, .caller)]) 1 2 := by
    rw [dropping, runs_append, runs_append]
    exact resting_dropped accepted full same
  have first : Untouched (.start 1 none) := ⟨rfl, rfl, rfl⟩
  obtain ⟨untouched, kept⟩ := untouched_sent first (sent_dropping n)
  obtain ⟨untouched', kept'⟩ := untouched_received n dropped untouched
  have received := resting_received dropped
  rw [List.length_replicate] at received
  unfold noticed
  rw [keeps_append, keeps_append, runs_append, runs_append, eq_oneDropped received untouched']
  exact ⟨rfl, ⟨kept, kept'⟩, keeps_reporting⟩

end Run

/-- Of three entries one is missing, and the notice in the one frame tells of it. -/
theorem entries_are_accounted_noticed :
    let final := runs (.start 1 none) (noticed 1023)
    final.frames.map (·.origins) = [[.caller, .notice 1, .caller]] ∧
      present final = 2 ∧ missing final = 1 ∧ missing final ≤ accounted final := by
  have counted {n : Nat} (room : n + 1 = CHANNEL_CAPACITY) :
      let final := runs (.start 1 none) (noticed n)
      final = runs oneDropped reporting ∧ missing final ≤ accounted final := by
    intro final
    obtain ⟨ended, kept⟩ := runs_noticed room
    refine ⟨ended, ((entries_are_accounted_iff warsawAtEpoch CHANNEL_CAPACITY "app" 1 none
      (noticed n)).2 ?_).mpr kept⟩
    change ∀ place ∈ (runs (.start 1 none) (noticed n)).senders.threads, place = .idle
    rw [ended]
    decide +kernel
  intro final
  obtain ⟨ended, accounts⟩ := counted (show 1023 + 1 = CHANNEL_CAPACITY from rfl)
  refine ⟨?_, ?_, ?_, accounts⟩
  · rw [show final = _ from ended]
    decide +kernel
  · rw [show final = _ from ended]
    decide +kernel
  · rw [show final = _ from ended]
    decide +kernel

/-! ## A notice pushed out of the queue -/

/-- An entry that is larger than the cap. -/
def big : OpLogData := ⟨"app", String.ofList (List.replicate (QUEUE_MAX_BYTES + 1) 'x'), 0⟩

/-- The channel is filled and two more entries are dropped; the worker catches up; the big entry
comes, and before it the notice of the two. -/
def filled : List (PipelineEvent "app") :=
  (List.replicate CHANNEL_CAPACITY (call small rfl 2)).flatten ++ (call small rfl 3 ++ call small rfl 5) ++
    List.replicate CHANNEL_CAPACITY (.receive perDay 0) ++ call big rfl 3

theorem filled_resting :
    Resting (runs (.start 1 none) filled)
      [(.log (dropNotice big 2), .notice 2), (.log big, .caller)] 0 (CHANNEL_CAPACITY + 3) := by
  have start : Resting (.start 1 none) [] 0 0 := ⟨rfl, rfl, rfl⟩
  have same : small.logName = "app" := rfl
  have full := resting_repeated (fun resting room => resting_accepted resting room same) CHANNEL_CAPACITY
    start (by simp)
  rw [List.nil_append, Nat.zero_add, Nat.mul_one] at full
  have one := resting_dropped full List.length_replicate same
  have two := resting_dropped one List.length_replicate same
  rw [← List.append_nil (List.replicate CHANNEL_CAPACITY (OpLogMessage.log small, Origin.caller))] at two
  have empty := resting_received two
  rw [List.length_replicate] at empty
  have ended := resting_noticed empty (show big.logName = "app" from rfl)
  unfold filled
  rw [runs_append, runs_append, runs_append, runs_append]
  exact ended

theorem byteLen_append (text more : String) : byteLen (text ++ more) = byteLen text + byteLen more := by
  unfold byteLen
  rw [utf8_append, List.length_append]

theorem byteLen_replicate (n : Nat) : byteLen (String.ofList (List.replicate n 'x')) = n := by
  change (String.ofList (List.replicate n 'x')).utf8ByteSize = n
  rw [String.utf8ByteSize_ofList]
  induction n with
  | zero => rfl
  | succ n ih =>
    rw [List.replicate_succ, String.utf8Len_cons, ih]
    rfl

theorem runs_balanced (events : List (PipelineEvent "app")) :
    ∃ lost, Balanced (runs (.start 1 none) events) lost := by
  obtain ⟨lost, balanced, -⟩ := run_measured warsawAtEpoch CHANNEL_CAPACITY 1 none events
  exact ⟨lost, balanced⟩

theorem big_bytes :
    QUEUE_MAX_BYTES < byteLen (perDay.route big.logName (warsawAtEpoch big.date) big.log).entry := by
  have text : (perDay.route big.logName (warsawAtEpoch big.date) big.log).entry =
      writeDate (warsawAtEpoch big.date) TIME_IN_LOG ++ " " ++ big.log := rfl
  have length : byteLen big.log = QUEUE_MAX_BYTES + 1 := byteLen_replicate _
  rw [text, byteLen_append, length]
  omega

/-- A queue whose last entry is such a notice loses it to the big entry. -/
theorem big_drops {s : Pipeline} (tracked : Tracked s) {queue : List Origin}
    (last : s.queue = queue ++ [.notice 2]) :
    ¬ OnesGo s (perDay.route big.logName (warsawAtEpoch big.date) big.log).entry := by
  intro ones
  have length := tracked.queue
  rw [last, List.length_append, List.length_singleton] at length
  have fits := ones queue.length 2 (by rw [last]; simp) (Nat.le_refl 2)
  rw [List.drop_append_of_le_length (by omega), total_append, total_cons] at fits
  have bytes := big_bytes
  omega

theorem received_last {s : Pipeline} {calls : Nat} (tracked : Tracked s)
    (resting : Resting s [(.log (dropNotice big 2), .notice 2), (.log big, .caller)] 0 calls) :
    ∃ queue, (s.step warsawAtEpoch CHANNEL_CAPACITY
      (.receive perDay 0 : PipelineEvent "app")).1.queue = queue ++ [.notice 2] := by
  have queued : s.senders.shared.tx.queue = [.log (dropNotice big 2), .log big] := by
    rw [resting.senders]
    rfl
  obtain ⟨-, n, -, bound, length, -⟩ := addition_spec warsawAtEpoch tracked perDay
    (perDay.route (dropNotice big 2).logName (warsawAtEpoch (dropNotice big 2).date)
      (dropNotice big 2).log) 0
  refine ⟨s.queue.drop n, ?_⟩
  unfold Pipeline.step
  simp only [queued, resting.channel, List.map_cons]
  exact follow_addition _ bound length

/-- The two last messages are received. -/
theorem two_received {s : Pipeline} {lost calls : Nat} (balanced : Balanced s lost)
    (resting : Resting s [(.log (dropNotice big 2), .notice 2), (.log big, .caller)] 0 calls) :
    let final := runs s [.receive perDay 0, .receive perDay 0]
    (∀ place ∈ final.senders.threads, place = .idle) ∧ ¬ missing final ≤ accounted final := by
  intro final
  have noticed : Resting (runs s [.receive perDay 0]) [(.log big, .caller)] 0 calls :=
    resting_received (show Resting s ([_] ++ [_]) 0 calls from resting)
  have ended : Resting final [] 0 calls :=
    resting_received (show Resting s ([_, _] ++ []) 0 calls from resting)
  have idle : ∀ place ∈ final.senders.threads, place = .idle := by
    rw [ended.senders]
    simp
  obtain ⟨queue, last⟩ := received_last balanced.1 resting
  obtain ⟨first, balanced, -⟩ := step_measured warsawAtEpoch CHANNEL_CAPACITY s
    (.receive perDay 0 : PipelineEvent "app") lost balanced
  obtain ⟨second, balanced', whole⟩ := step_measured warsawAtEpoch CHANNEL_CAPACITY _
    (.receive perDay 0 : PipelineEvent "app") _ balanced
  have dropped : second ≠ 0 := by
    intro none
    refine big_drops balanced.1 last (whole.mp none big ?_)
    change (runs s [.receive perDay 0]).senders.shared.tx.queue.head? = _
    rw [noticed.senders]
    rfl
  refine ⟨idle, fun le => ?_⟩
  have nothing := (missing_le_iff balanced' idle).mp le
  omega

/-- The notice of two drops gives way to the big entry and counts as one: of the callers'
entries, one more is missing than the counts and the notices account for. -/
theorem notice_counts_for_one :
    let final := runs (.start 1 none) (filled ++ [.receive perDay 0, .receive perDay 0])
    (∀ place ∈ final.senders.threads, place = .idle) ∧ ¬ missing final ≤ accounted final := by
  intro final
  obtain ⟨lost, balanced⟩ := runs_balanced filled
  have same : final = runs (runs (.start 1 none) filled) [.receive perDay 0, .receive perDay 0] :=
    runs_append _ _ _
  rw [same]
  exact two_received balanced filled_resting

end OpLog.Guarantees.EndToEnd
