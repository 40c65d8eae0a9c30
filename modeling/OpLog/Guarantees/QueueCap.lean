import Mathlib.Order.Bounds.Defs
import OpLog.Guarantees.OneFile
import OpLog.Library.Total
import OpLog.Source.FileOps

/-!
# The queue cap

`queued_bytes` is kept up to date in three places: the push, the cap loop and the drain
behind a written frame. It is always the sum over the queue, so none of the subtractions
underflows, and the cap loop drops as few entries as it can.
-/
namespace OpLog.Guarantees.QueueCap
open Library Source

/-- Under the cap, or one entry alone. -/
def Fits (logs : List String) : Prop := total byteLen logs ≤ QUEUE_MAX_BYTES ∨ logs.length = 1

structure Capped (f : LogFile) : Prop where
  bytes : f.queuedBytes = total byteLen f.logs
  cap : f.queuedBytes ≤ QUEUE_MAX_BYTES ∨ f.logs.length = 1
  counted : 0 < f.droppedLogs → f.logs ≠ []

/-! ## The subtractions, checked -/

/-- `-` on `usize`; `none` is its panic. -/
def checkedSub (a b : Nat) : Option Nat := if b ≤ a then some (a - b) else none

/-- `dropOldest` with its subtraction checked. -/
def dropOldestChecked : List String → Nat → Nat → Option (List String × Nat × Nat)
  | dropped :: next :: logs, queuedBytes, droppedLogs =>
    if queuedBytes > QUEUE_MAX_BYTES then
      (checkedSub queuedBytes (byteLen dropped)).bind fun queuedBytes =>
        dropOldestChecked (next :: logs) queuedBytes (droppedLogs + 1)
    else some (dropped :: next :: logs, queuedBytes, droppedLogs)
  | logs, queuedBytes, droppedLogs => some (logs, queuedBytes, droppedLogs)

/-- The drain of `afterWrite` with its subtractions checked. -/
def drainChecked : List String → Nat → Option Nat
  | [], queuedBytes => some queuedBytes
  | written :: logs, queuedBytes =>
    (checkedSub queuedBytes (byteLen written)).bind (drainChecked logs)

theorem checkedSub_add (a b : Nat) : checkedSub (a + b) a = some b := by
  unfold checkedSub
  rw [if_pos (Nat.le_add_right a b), Nat.add_sub_cancel_left]

/-- On a count that is right the cap loop does not underflow, leaves the count right, and
stops as soon as what is left fits. -/
theorem dropOldest_exact (logs : List String) (droppedLogs : Nat) (some_left : logs ≠ []) :
    ∃ n, n < logs.length ∧
      dropOldest logs (total byteLen logs) droppedLogs =
        (logs.drop n, total byteLen (logs.drop n), droppedLogs + n) ∧
      dropOldestChecked logs (total byteLen logs) droppedLogs =
        some (dropOldest logs (total byteLen logs) droppedLogs) ∧
      IsLeast {n | Fits (logs.drop n)} n := by
  induction logs generalizing droppedLogs with
  | nil => exact absurd rfl some_left
  | cons dropped logs ih =>
    cases logs with
    | nil =>
      exact ⟨0, Nat.one_pos, rfl, rfl, Or.inr rfl, fun m _ => Nat.zero_le m⟩
    | cons next logs =>
      unfold dropOldest dropOldestChecked
      by_cases over_cap : total byteLen (dropped :: next :: logs) > QUEUE_MAX_BYTES
      · obtain ⟨n, bound, dropped_n, checked, fits, least⟩ := ih (droppedLogs + 1) (by simp)
        have rest : total byteLen (dropped :: next :: logs) - byteLen dropped =
            total byteLen (next :: logs) := by
          rw [total_cons, Nat.add_sub_cancel_left]
        simp only [if_pos over_cap, rest]
        refine ⟨n + 1, Nat.succ_lt_succ bound, ?_, ?_, fits, ?_⟩
        · rw [dropped_n, List.drop_succ_cons, Nat.add_right_comm, Nat.add_assoc]
        · rw [total_cons byteLen dropped, checkedSub_add, Option.bind_some]
          exact checked
        · intro m fits_m
          cases m with
          | zero =>
            rcases fits_m with under | single
            · exact absurd under (Nat.not_le.mpr over_cap)
            · simp at single
          | succ m => exact Nat.succ_le_succ (least fits_m)
      · simp only [if_neg over_cap]
        exact ⟨0, Nat.succ_pos _, rfl, trivial, Or.inl (Nat.le_of_not_gt over_cap),
          fun m _ => Nat.zero_le m⟩

theorem drain_exact (logs : List String) (rest : Nat) :
    logs.foldl (fun n written => n - byteLen written) (total byteLen logs + rest) = rest ∧
      drainChecked logs (total byteLen logs + rest) = some rest := by
  induction logs with
  | nil => simp [drainChecked]
  | cons written logs ih =>
    rw [total_cons, Nat.add_assoc]
    unfold drainChecked
    rw [List.foldl_cons, Nat.add_sub_cancel_left, checkedSub_add, Option.bind_some]
    exact ih

/-- The drain of any number of entries from the front. -/
theorem afterWrite_exact {f : LogFile} (bytes : f.queuedBytes = total byteLen f.logs) (consumed : Nat) :
    (f.afterWrite consumed).queuedBytes = total byteLen (f.logs.drop consumed) ∧
      drainChecked (f.logs.take consumed) f.queuedBytes = some (f.afterWrite consumed).queuedBytes := by
  have split : f.queuedBytes =
      total byteLen (f.logs.take consumed) + total byteLen (f.logs.drop consumed) := by
    rw [← total_append, List.take_append_drop, bytes]
  unfold LogFile.afterWrite
  simp only [split, drain_exact, and_self]

/-! ## Steps -/

theorem capped_new (d : LogDefinition) (logName path : String) (now : Instant) :
    Capped (d.getLogFile none logName path now) :=
  ⟨rfl, Or.inl (Nat.zero_le _), fun counted => absurd counted (Nat.lt_irrefl 0)⟩

theorem capped_getLogFile (d : LogDefinition) {live : Option LogFile}
    (capped : ∀ f, live = some f → Capped f) (logName path : String) (now : Instant) :
    Capped (d.getLogFile live logName path now) := by
  cases live with
  | none => exact capped_new d logName path now
  | some f =>
    obtain ⟨bytes, cap, counted⟩ := capped f rfl
    rw [d.getLogFile_some]
    exact ⟨bytes, cap, counted⟩

/-- What `add_to_log` makes of the queue. -/
theorem addToLog_exact {f : LogFile} (capped : Capped f) (log : String) (now : Instant) :
    dropOldestChecked (f.logs ++ [log]) (f.queuedBytes + byteLen log) f.droppedLogs =
        some (dropOldest (f.logs ++ [log]) (f.queuedBytes + byteLen log) f.droppedLogs) ∧
      Capped (f.addToLog log now) ∧
      ∃ n, IsLeast {n | Fits ((f.logs ++ [log]).drop n)} n ∧
        (f.addToLog log now).logs = (f.logs ++ [log]).drop n ∧
        (f.addToLog log now).droppedLogs = f.droppedLogs + n := by
  have pushed : f.queuedBytes + byteLen log = total byteLen (f.logs ++ [log]) := by
    rw [total_append, capped.bytes, total_cons, total_nil, Nat.add_zero]
  obtain ⟨n, bound, dropped, checked, least⟩ :=
    dropOldest_exact (f.logs ++ [log]) f.droppedLogs (by simp)
  unfold LogFile.addToLog
  rw [pushed, checked, dropped]
  refine ⟨rfl, ⟨rfl, least.1, ?_⟩, n, least, rfl, rfl⟩
  intro _
  exact List.ne_nil_of_length_pos (by rw [List.length_drop]; omega)

section Warsaw
variable (warsaw : DateTimeUtc → LocalDateTime)

/-- Every attempt leaves the count right, however much of the queue it wrote. -/
theorem capped_attempt {f : LogFile} (capped : Capped f) (d : LogDefinition)
    (flushInterval : Duration) (env : AttemptEnv) (content : Option Bytes) :
    Capped (d.writeOne warsaw flushInterval env f content).1 := by
  obtain ⟨bytes, cap, counted⟩ := capped
  rcases writeOne_outcome warsaw d flushInterval env f content with
    ⟨idle, skipped⟩ | ⟨ops, e, due, failed⟩ | ⟨ops, has, frame, due, encoded, written⟩
  · rw [skipped, LogFile.afterSkip_eq]
    exact ⟨bytes, cap, counted⟩
  · rw [failed]
    exact ⟨bytes, cap, counted⟩
  · rw [written]
    have rest := (afterWrite_exact bytes frame.consumed).1
    refine ⟨rest, ?_, fun some_dropped => absurd some_dropped (Nat.lt_irrefl 0)⟩
    rw [show ({ f.afterWrite frame.consumed with writeErrorLogged := false } : LogFile).queuedBytes =
      _ from rest]
    obtain ⟨-, progress, -⟩ := encodeFrame_spec encoded
    have consumed := progress due.1
    have shorter : total byteLen (f.logs.drop frame.consumed) ≤ total byteLen f.logs := by
      rw [← List.take_append_drop frame.consumed f.logs, total_append, List.take_append_drop]
      exact Nat.le_add_left _ _
    rcases cap with under | single
    · exact Or.inl (shorter.trans (bytes ▸ under))
    · have empty : f.logs.drop frame.consumed = [] := List.drop_eq_nil_of_le (by omega)
      rw [empty]
      exact Or.inl (Nat.zero_le _)

theorem step_capped (live : Option LogFile) (op : FileOp) (capped : ∀ f, live = some f → Capped f) :
    ∀ f, (op.step warsaw live).1 = some f → Capped f := by
  cases op with
  | queue d r now =>
    intro f same
    cases same
    exact (addToLog_exact (capped_getLogFile d capped r.logName r.path now) r.entry now).2.1
  | attempt d flushInterval env content =>
    intro f same
    cases live with
    | none => cases same
    | some g =>
      cases same
      exact capped_attempt warsaw (capped g rfl) d flushInterval env content
  | cleanUp now =>
    intro f same
    exact capped f (Option.filter_eq_some_iff.mp same).1

/-- After any additions, attempts and clean-ups: the byte count is that of the queue and
under the cap, unless one entry is alone; a count of drops has an entry to go with; no drain
and no cap loop underflows; and the next addition drops the least number of the oldest
entries after which the rest fits, and counts them. -/
theorem queue_cap_is_exact (ops : List FileOp) :
    let live := (Machine.run (FileOp.step warsaw) none ops).1
    (∀ f, live = some f → Capped f ∧
      ∀ consumed, drainChecked (f.logs.take consumed) f.queuedBytes =
        some (f.afterWrite consumed).queuedBytes) ∧
    ∀ (d : LogDefinition) (logName path log : String) (now : Instant),
      let f := d.getLogFile live logName path now
      dropOldestChecked (f.logs ++ [log]) (f.queuedBytes + byteLen log) f.droppedLogs =
          some (dropOldest (f.logs ++ [log]) (f.queuedBytes + byteLen log) f.droppedLogs) ∧
        ∃ n, IsLeast {n | Fits ((f.logs ++ [log]).drop n)} n ∧
          (f.addToLog log now).logs = (f.logs ++ [log]).drop n ∧
          (f.addToLog log now).droppedLogs = f.droppedLogs + n := by
  intro live
  have capped : ∀ f, live = some f → Capped f :=
    Machine.run_invariant_always (fun live _ => ∀ f, live = some f → Capped f)
      (fun live op _ => step_capped warsaw live op) none [] (by simp) ops
  constructor
  · intro f same
    exact ⟨capped f same, fun consumed => (afterWrite_exact (capped f same).bytes consumed).2⟩
  · intro d logName path log now f
    obtain ⟨checked, -, exact_drop⟩ :=
      addToLog_exact (capped_getLogFile d capped logName path now) log now
    exact ⟨checked, exact_drop⟩

end Warsaw

theorem queue_cap_is_exact_one_entry :
    ∃ f, (Machine.run (FileOp.step warsawAtEpoch) none
        [.queue (plainDefinition "") ⟨"app.log", "logs", "one"⟩ 0]).1 = some f ∧ Capped f :=
  ⟨_, rfl, ((queue_cap_is_exact warsawAtEpoch
    [.queue (plainDefinition "") ⟨"app.log", "logs", "one"⟩ 0]).1 _ rfl).1⟩

end OpLog.Guarantees.QueueCap
