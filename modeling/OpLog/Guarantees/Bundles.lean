import OpLog.Guarantees.OneFile
import OpLog.Guarantees.Registration
import OpLog.Source.SendLog

/-!
# A bundle against its parts

An accepted bundle does what its definitions and then its entries do as messages of their
own, whatever the clock reads at each of them. Where the channel refuses it, `log_bundle`
forgets its entries, while `log` counts each of them: a bundle is accounted for exactly if
the channel has room for it or it has no entries.
-/
namespace OpLog.Guarantees.Bundles
open Library Source Registration

/-! ## The clock inside a bundle -/

section Clock
variable (warsaw : DateTimeUtc → LocalDateTime)

/-- `process_bundle` with the clock read by each call: behind every definition and every
entry stands what it reads. -/
def processLogsAt (w : OpLogWorker) : List (OpLogData × Instant) → OpLogWorker × List Output
  | [] => (w, [])
  | (data, now) :: rest =>
    let (w, out) := w.processLog warsaw data now
    let (w, outs) := processLogsAt w rest
    (w, out ++ outs)

def processBundleAt (w : OpLogWorker) (definitions : List (OpLogDefinition × Instant))
    (logs : List (OpLogData × Instant)) : OpLogWorker × List Output :=
  processLogsAt warsaw (definitions.foldl (fun w d => w.define d.1 d.2) w) logs

/-- The same calls as messages of their own, each handled at its reading. -/
def singles (env : MessageEnv) (definitions : List (OpLogDefinition × Instant))
    (logs : List (OpLogData × Instant)) : List Event :=
  definitions.map (fun d => .message { env with now := d.2 } (.logDefinition d.1)) ++
    logs.map (fun l => .message { env with now := l.2 } (.log l.1))

variable {warsaw}

theorem processLogsAt_const (w : OpLogWorker) (logs : List OpLogData) (now : Instant) :
    processLogsAt warsaw w (logs.map fun data => (data, now)) = w.processLogs warsaw now logs := by
  induction logs generalizing w with
  | nil => rfl
  | cons data rest ih => simp only [List.map_cons, processLogsAt, OpLogWorker.processLogs, ih]

/-- The worker's own `process_bundle` is the case of one reading for the whole bundle. -/
theorem processBundleAt_const (w : OpLogWorker) (bundle : OpLogBundle) (now : Instant) :
    processBundleAt warsaw w (bundle.definitions.map fun d => (d, now))
      (bundle.logs.map fun data => (data, now)) = w.processBundle warsaw bundle now := by
  unfold processBundleAt OpLogWorker.processBundle
  rw [processLogsAt_const, List.foldl_map]

theorem run_definitions (s : World) (env : MessageEnv)
    (definitions : List (OpLogDefinition × Instant)) :
    Machine.run (World.step warsaw) s
        (definitions.map fun d => .message { env with now := d.2 } (.logDefinition d.1)) =
      ({ s with worker := definitions.foldl (fun w d => w.define d.1 d.2) s.worker }, []) := by
  induction definitions generalizing s with
  | nil => rfl
  | cons d rest ih =>
    rw [List.map_cons, Machine.run_cons, ih]
    rfl

theorem run_logs (s : World) (env : MessageEnv) (logs : List (OpLogData × Instant)) :
    Machine.run (World.step warsaw) s
        (logs.map fun l => .message { env with now := l.2 } (.log l.1)) =
      ({ s with worker := (processLogsAt warsaw s.worker logs).1 },
        (processLogsAt warsaw s.worker logs).2) := by
  induction logs generalizing s with
  | nil => rfl
  | cons l rest ih =>
    rw [List.map_cons, Machine.run_cons, ih]
    rfl

theorem run_singles (s : World) (env : MessageEnv) (definitions : List (OpLogDefinition × Instant))
    (logs : List (OpLogData × Instant)) :
    Machine.run (World.step warsaw) s (singles env definitions logs) =
      ({ s with worker := (processBundleAt warsaw s.worker definitions logs).1 },
        (processBundleAt warsaw s.worker definitions logs).2) := by
  unfold singles
  rw [Machine.run_append, run_definitions, run_logs]
  rfl

end Clock

/-! ## The refused side -/

section Channel
variable (capacity : Nat)

theorem trySend_room {c : Channel} (room : c.room capacity = true) (msg : OpLogMessage) :
    c.trySend capacity msg = some { c with queue := c.queue ++ [msg] } := if_pos room

theorem trySend_full {c : Channel} (full : c.room capacity = false) (msg : OpLogMessage) :
    c.trySend capacity msg = none := if_neg (by rw [full]; exact Bool.false_ne_true)

/-- `log_bundle` at a channel without room does nothing. -/
theorem logBundle_full (inner : OpLogInner) (full : inner.tx.room capacity = false)
    (bundle : OpLogBundle) : inner.logBundle capacity bundle = inner := by
  unfold OpLogInner.logBundle
  rw [trySend_full capacity full]

/-- A channel without room: the drops reported in vain go back, and the entry joins them. -/
theorem sendLog_full {inner : OpLogInner} (full : inner.tx.room capacity = false)
    (data : OpLogData) :
    inner.sendLog capacity data = { inner with droppedLogs := inner.droppedLogs + 1 } := by
  rcases Nat.eq_zero_or_pos inner.droppedLogs with empty | pending
  · simp only [OpLogInner.sendLog, empty, gt_iff_lt, Nat.lt_irrefl, if_false,
      trySend_full capacity full]
  · simp only [OpLogInner.sendLog, gt_iff_lt, pending, if_true, trySend_full capacity full,
      Nat.zero_add]

theorem sendLogs_full {inner : OpLogInner} (full : inner.tx.room capacity = false)
    (logs : List OpLogData) :
    logs.foldl (fun inner data => inner.sendLog capacity data) inner =
      { inner with droppedLogs := inner.droppedLogs + logs.length } := by
  induction logs generalizing inner with
  | nil => rfl
  | cons data rest ih =>
    rw [List.foldl_cons, sendLog_full capacity full, List.length_cons]
    have later := @ih { inner with droppedLogs := inner.droppedLogs + 1 } full
    rw [later, Nat.add_assoc, Nat.add_comm 1]

end Channel

/-! ## The two outcomes -/

/-- The message is queued, and the worker that gets to it, in whatever state, does what the
definitions and the entries do one by one at the same readings of the clock. -/
def AcceptedAsParts (warsaw : DateTimeUtc → LocalDateTime) (capacity : Nat) (inner : OpLogInner)
    (bundle : OpLogBundle) : Prop :=
  inner.tx.room capacity = true ∧
  inner.logBundle capacity bundle =
    { inner with tx := { inner.tx with queue := inner.tx.queue ++ [.logBundle bundle] } } ∧
  (∀ s env, s.step warsaw (.message env (.logBundle bundle)) =
    Machine.run (World.step warsaw) s (unbundled env bundle)) ∧
  ∀ (s : World) (env : MessageEnv) definitions logs,
    definitions.map Prod.fst = bundle.definitions → logs.map Prod.fst = bundle.logs →
    ({ s with worker := (processBundleAt warsaw s.worker definitions logs).1 },
        (processBundleAt warsaw s.worker definitions logs).2) =
      Machine.run (World.step warsaw) s (singles env definitions logs)

/-- The message is not queued and each of its entries is counted as dropped, which is what
`log` does with them one by one. -/
def RefusedAsParts (capacity : Nat) (inner : OpLogInner) (bundle : OpLogBundle) : Prop :=
  inner.tx.room capacity = false ∧
  inner.logBundle capacity bundle =
    { inner with droppedLogs := inner.droppedLogs + bundle.logs.length } ∧
  inner.logBundle capacity bundle =
    bundle.logs.foldl (fun inner data => inner.sendLog capacity data) inner

/-- Nothing is counted, so nothing may have been refused. -/
theorem refused_empty {capacity : Nat} {inner : OpLogInner} {bundle : OpLogBundle}
    (refused : RefusedAsParts capacity inner bundle) : bundle.logs = [] := by
  obtain ⟨full, counted, -⟩ := refused
  rw [logBundle_full capacity inner full] at counted
  have drops : inner.droppedLogs = inner.droppedLogs + bundle.logs.length :=
    congrArg OpLogInner.droppedLogs counted
  apply List.eq_nil_of_length_eq_zero
  omega

/-- As many messages as the channel takes, none received yet. -/
def fullChannel : Channel := ⟨List.replicate CHANNEL_CAPACITY .flush, 0, false⟩

theorem fullChannel_room : fullChannel.room CHANNEL_CAPACITY = false := by
  unfold fullChannel
  generalize CHANNEL_CAPACITY = capacity
  simp [Channel.room]

/-- A bundle of one entry at a full channel is neither. -/
theorem refused_bundle_uncounted :
    ¬ (AcceptedAsParts warsawAtEpoch CHANNEL_CAPACITY
          ⟨fullChannel, true, 0⟩ ⟨[], [⟨"app", "started", 0⟩]⟩ ∨
        RefusedAsParts CHANNEL_CAPACITY
          ⟨fullChannel, true, 0⟩ ⟨[], [⟨"app", "started", 0⟩]⟩) := by
  rintro (⟨room, -⟩ | refused)
  · rw [fullChannel_room] at room
    cases room
  · cases refused_empty refused

/-- Exactly when the channel has room, or no entry is in the bundle. -/
theorem bundle_accounted_iff (warsaw : DateTimeUtc → LocalDateTime) (capacity : Nat)
    (inner : OpLogInner) (bundle : OpLogBundle) :
    AcceptedAsParts warsaw capacity inner bundle ∨ RefusedAsParts capacity inner bundle ↔
      inner.tx.room capacity = true ∨ bundle.logs = [] := by
  constructor
  · rintro (⟨room, -⟩ | refused)
    · exact Or.inl room
    · exact Or.inr (refused_empty refused)
  · intro condition
    cases room : inner.tx.room capacity with
    | true =>
      left
      constructor
      · exact room
      constructor
      · unfold OpLogInner.logBundle
        rw [trySend_room capacity room]
      constructor
      · intro s env
        exact step_bundle s env bundle
      · intro s env definitions logs _ _
        exact (run_singles s env definitions logs).symm
    | false =>
      have empty : bundle.logs = [] := by
        rcases condition with open_ | empty
        · rw [room] at open_
          cases open_
        · exact empty
      right
      unfold RefusedAsParts
      rw [logBundle_full capacity inner room, sendLogs_full capacity room, empty]
      exact ⟨room, rfl, rfl⟩

end OpLog.Guarantees.Bundles
