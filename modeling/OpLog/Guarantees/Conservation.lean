import OpLog.Source.SendLog

/-!
# No drop is lost or reported twice

Between its swap and the last step of its call a thread holds drops privately: the ones it
took out of the counter and has not reported or given back, and its own entry. With those
counted in, every atomic step of every thread keeps the balance, whatever the worker and the
other senders do to the channel meanwhile. Once no call is in progress nothing is held.
-/
namespace OpLog.Guarantees.Conservation
open Library Source

def calls : List SendOutput → Nat :=
  total fun
    | .called _ => 1
    | _ => 0

def entries : List SendOutput → Nat :=
  total fun
    | .entry _ => 1
    | _ => 0

/-- The sum of the counts that the accepted notices carry. -/
def reported : List SendOutput → Nat :=
  total fun
    | .notice _ pending => pending
    | _ => 0

/-- The entries a thread still has to account for. -/
def held : SendLog → Nat
  | .idle => 0
  | .swap _ => 1
  | .trySendNotice _ pending => pending + 1
  | .addPending _ pending => pending + 1
  | .trySend _ => 1
  | .addOne => 1

/-- Every call so far is in the counter, in the hands of a thread, in an accepted entry or
in the count of an accepted notice. -/
def Balanced (s : Senders) (past : List SendOutput) : Prop :=
  s.shared.droppedLogs + total held s.threads + (entries past + reported past) = calls past

/-! ## Steps -/

section Steps
variable (capacity : Nat)

/-- An atomic step of one call. -/
theorem step_conserves (inner : OpLogInner) (place : SendLog) :
    (place.step capacity inner).1.droppedLogs + held (place.step capacity inner).2.1 +
        (entries (place.step capacity inner).2.2 + reported (place.step capacity inner).2.2) =
      inner.droppedLogs + held place + calls (place.step capacity inner).2.2 := by
  cases place with
  | idle => rfl
  | swap data =>
    -- what leaves the counter is held from here on
    simp only [SendLog.step]
    split
    · unfold entries reported calls
      simp only [held, total_nil]
      omega
    · unfold entries reported calls
      simp only [held, total_nil]
      omega
  | trySendNotice data pending =>
    simp only [SendLog.step]
    cases inner.tx.trySend capacity (.log (dropNotice data pending)) with
    | none => rfl
    | some tx =>
      unfold entries reported calls
      simp only [held, total_nil, total_cons]
      omega
  | addPending data pending =>
    unfold SendLog.step entries reported calls
    simp only [held, total_nil]
    omega
  | trySend data =>
    simp only [SendLog.step]
    cases inner.tx.trySend capacity (.log data) with
    | none => rfl
    | some tx => rfl
  | addOne => rfl

theorem call_conserves (data : OpLogData) (inner : OpLogInner) (place : SendLog) :
    (place.call data inner).1.droppedLogs + held (place.call data inner).2.1 +
        (entries (place.call data inner).2.2 + reported (place.call data inner).2.2) =
      inner.droppedLogs + held place + calls (place.call data inner).2.2 := by
  cases place <;> rfl

theorem balanced_append {s s' : Senders} {past out : List SendOutput}
    (step : s'.shared.droppedLogs + total held s'.threads + (entries out + reported out) =
      s.shared.droppedLogs + total held s.threads + calls out)
    (balanced : Balanced s past) : Balanced s' (past ++ out) := by
  simp only [Balanced, entries, reported, calls, total_append] at balanced step ⊢
  omega

/-- Any event, of any thread or around them. -/
theorem step_balanced (s : Senders) (event : SendEvent) (past : List SendOutput)
    (balanced : Balanced s past) :
    Balanced (s.step capacity event).1 (past ++ (s.step capacity event).2) := by
  have quiet (tx : Channel) : Balanced (s.withTx tx) (past ++ []) := balanced_append rfl balanced
  cases event with
  | call thread data =>
    refine balanced_append ?_ balanced
    exact Threads.advance_conserves (SendLog.call data) (·.droppedLogs) held calls
      (fun out => entries out + reported out) ⟨rfl, rfl⟩ (call_conserves data) s thread
  | advance thread =>
    refine balanced_append ?_ balanced
    exact Threads.advance_conserves (SendLog.step capacity) (·.droppedLogs) held calls
      (fun out => entries out + reported out) ⟨rfl, rfl⟩ (step_conserves capacity) s thread
  | send msg =>
    simp only [Senders.step]
    split
    · exact quiet _
    · exact balanced_append rfl balanced
  | _ => exact quiet _

theorem run_balanced (tx : Channel) (n : Nat) (events : List SendEvent) :
    let final := Machine.run (Senders.step capacity) (Senders.start tx n) events
    Balanced final.1 final.2 := by
  refine Machine.run_invariant_always Balanced (step_balanced capacity) (Senders.start tx n) [] ?_
    events
  unfold Balanced Senders.start
  rw [total_eq_zero]
  · rfl
  · intro place member
    rw [List.eq_of_mem_replicate member]
    rfl

end Steps

/-- No interleaving brings the counter above the number of calls. -/
theorem droppedLogs_le_calls (capacity : Nat) (tx : Channel) (n : Nat) (events : List SendEvent) :
    let final := Machine.run (Senders.step capacity) (Senders.start tx n) events
    final.1.shared.droppedLogs ≤ calls final.2 := by
  intro final
  have balanced : Balanced final.1 final.2 := run_balanced capacity tx n events
  unfold Balanced at balanced
  omega

/-- Any number of threads, any capacity, any channel to begin with and any interleaving:
whenever no call is in progress, the calls made are accounted for. -/
theorem calls_are_accounted (capacity : Nat) (tx : Channel) (n : Nat) (events : List SendEvent) :
    let final := Machine.run (Senders.step capacity) (Senders.start tx n) events
    (∀ place ∈ final.1.threads, place = .idle) →
      calls final.2 = entries final.2 + final.1.shared.droppedLogs + reported final.2 := by
  intro final idle
  have balanced : Balanced final.1 final.2 := run_balanced capacity tx n events
  have released : total held final.1.threads = 0 := by
    refine total_eq_zero held _ fun place member => ?_
    rw [idle place member]
    rfl
  unfold Balanced at balanced
  rw [released] at balanced
  omega

def dataA : OpLogData := ⟨"a", "one", 0⟩

/-- Two threads on a channel with one place: one swaps the counter while the other has not
yet counted its drop, both drops are reported together, and the reporting entry drops. -/
def interleaved : List SendEvent :=
  [.call 0 dataA, .advance 0, .advance 0,
    .call 1 dataA, .call 0 dataA, .advance 1, .advance 1, .advance 0, .advance 1, .advance 0, .advance 0,
    .recv, .call 1 dataA, .advance 1, .advance 1, .advance 1, .advance 1]

theorem calls_are_accounted_interleaved :
    let final := Machine.run (Senders.step 1) (Senders.start .empty 2) interleaved
    calls final.2 = 4 ∧ reported final.2 = 2 ∧
      calls final.2 = entries final.2 + final.1.shared.droppedLogs + reported final.2 :=
  ⟨by decide +kernel, by decide +kernel, calls_are_accounted 1 .empty 2 interleaved (by decide +kernel)⟩

end OpLog.Guarantees.Conservation
