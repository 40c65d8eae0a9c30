import OpLog.Source.SendLog

/-!
# Does a notice go to the log whose entries were dropped?

One counter serves all names. A notice is addressed to the log that happens to send next,
and takes the drops of every other log with it. The calls are watched one after another,
the channel getting room or losing it at any of their steps.
-/
namespace OpLog.Guarantees.Attribution
open Library Source

/-- The handle with what has become of the entries: the accepted notices with the log they
are addressed to, the logs of the dropped entries, and the logs of those among them that no
accepted notice has counted yet. -/
structure Watched where
  senders : Senders
  noticed : List (String × Nat)
  dropped : List String
  unreported : List String

/-- The notices among what a step put out. -/
def notices (out : List SendOutput) : List (String × Nat) :=
  out.filterMap fun
    | .notice data pending => some (data.logName, pending)
    | _ => none

section Capacity
variable (capacity : Nat)

/-- The entry that is dropped at this step: its `try_send` finds no room. -/
def droppedBy (s : Senders) : SendEvent → List String
  | .advance thread =>
    match s.threads[thread]? with
    | some (.trySend data) => if s.shared.tx.room capacity then [] else [data.logName]
    | _ => []
  | _ => []

namespace Watched

def step (s : Watched) (event : SendEvent) : Watched × List SendOutput :=
  let (senders, out) := s.senders.step capacity event
  let dropped := droppedBy capacity s.senders event
  ({ senders
     noticed := s.noticed ++ notices out
     dropped := s.dropped ++ dropped
     unreported := (if notices out = [] then s.unreported else []) ++ dropped }, out)

/-- One caller, nothing dropped yet. -/
def start (tx : Channel) : Watched := ⟨Senders.start tx 1, [], [], []⟩

end Watched

/-- The sum of the counts in the notices addressed to a log. -/
def reportedTo (name : String) : List (String × Nat) → Nat :=
  total fun notice => if notice.1 = name then notice.2 else 0

/-- No log is told of more drops than it has had. -/
def Attributed (s : Watched) : Prop :=
  ∀ name, reportedTo name s.noticed ≤ s.dropped.count name

/-- A notice that is about to be accepted finds no drop of another log unreported. -/
def OneLog (s : Watched) : SendEvent → Prop
  | .advance thread => ∀ data pending,
      s.senders.threads[thread]? = some (.trySendNotice data pending) →
        s.senders.shared.tx.room capacity = true → ∀ name ∈ s.unreported, name = data.logName
  | _ => True

/-! ## The invariant -/

/-- The drops a call holds: those taken out of the counter, and its own. -/
def inHand : SendLog → Nat
  | .trySendNotice _ pending => pending
  | .addPending _ pending => pending
  | .addOne => 1
  | _ => 0

/-- As long as notices were addressed rightly: the unreported drops are those in the counter
and in hand, and every drop of a log was reported to it or is still unreported. -/
structure Sorted (s : Watched) (place : SendLog) : Prop where
  alone : s.senders.threads = [place]
  counted : s.unreported.length = s.senders.shared.droppedLogs + inHand place
  swapped : ∀ data pending, place = .trySendNotice data pending ∨ place = .addPending data pending →
    s.senders.shared.droppedLogs = 0
  sorted : ∀ name, s.dropped.count name = reportedTo name s.noticed + s.unreported.count name

theorem attributed_of_sorted {s : Watched} {place : SendLog} (sorted : Sorted s place) :
    Attributed s := by
  intro name
  rw [sorted.sorted]
  exact Nat.le_add_right _ _

/-! ## Steps -/

/-- A step in which no notice is accepted and no entry dropped. -/
theorem sorted_quiet {s : Watched} {place place' : SendLog} (sorted : Sorted s place)
    {senders : Senders} (alone : senders.threads = [place'])
    (balance : senders.shared.droppedLogs + inHand place' =
      s.senders.shared.droppedLogs + inHand place)
    (swapped : ∀ data pending,
      place' = .trySendNotice data pending ∨ place' = .addPending data pending →
        senders.shared.droppedLogs = 0) :
    Sorted ⟨senders, s.noticed ++ [], s.dropped ++ [], s.unreported ++ []⟩ place' := by
  simp only [List.append_nil]
  exact ⟨alone, sorted.counted.trans balance.symm, swapped, sorted.sorted⟩

/-- One that leaves the caller where it is. -/
theorem sorted_around {s : Watched} {place : SendLog} (sorted : Sorted s place) (tx : Channel) :
    Sorted ⟨s.senders.withTx tx, s.noticed ++ [], s.dropped ++ [], s.unreported ++ []⟩ place :=
  sorted_quiet sorted sorted.alone rfl sorted.swapped

/-- An entry is dropped: the call holds it until it is counted. -/
theorem sorted_drop {s : Watched} {data : OpLogData} (sorted : Sorted s (.trySend data)) :
    Sorted ⟨⟨s.senders.shared, [.addOne]⟩, s.noticed ++ [], s.dropped ++ [data.logName],
      s.unreported ++ [data.logName]⟩ .addOne := by
  refine ⟨rfl, ?_, ?_, ?_⟩
  · rw [List.length_append, sorted.counted]
    rfl
  · intro _ _ either
    rcases either with h | h <;> cases h
  · intro name
    simp only [List.append_nil]
    rw [List.count_append, List.count_append, sorted.sorted name]
    omega

/-- The notice is accepted. -/
def accepted (s : Watched) (tx : Channel) (data : OpLogData) (pending : Nat) : Watched :=
  ⟨⟨{ s.senders.shared with tx }, [.trySend data]⟩, s.noticed ++ [(data.logName, pending)],
    s.dropped, []⟩

theorem reportedTo_append (name : String) (past more : List (String × Nat)) :
    reportedTo name (past ++ more) = reportedTo name past + reportedTo name more :=
  total_append _ _ _

/-- A call holds every drop that is not reported. -/
theorem pending_eq {s : Watched} {data : OpLogData} {pending : Nat}
    (sorted : Sorted s (.trySendNotice data pending)) : pending = s.unreported.length := by
  rw [sorted.counted, sorted.swapped data pending (Or.inl rfl), Nat.zero_add, inHand]

theorem count_eq_length_of_own {s : Watched} {name : String}
    (own : ∀ other ∈ s.unreported, other = name) : s.unreported.count name = s.unreported.length :=
  List.count_eq_length.mpr fun other unreported => (own other unreported).symm

/-- It reports the drops of every log to one: rightly so only if that is the log of all. -/
theorem attributed_accepted {s : Watched} {data : OpLogData} {pending : Nat}
    (sorted : Sorted s (.trySendNotice data pending)) (tx : Channel) :
    Attributed (accepted s tx data pending) ↔ ∀ name ∈ s.unreported, name = data.logName := by
  have all := pending_eq sorted
  constructor
  · intro attributed
    have own := attributed data.logName
    unfold accepted at own
    rw [reportedTo_append, sorted.sorted, all] at own
    simp only [reportedTo, total_cons, total_nil, if_true] at own
    have only : s.unreported.count data.logName = s.unreported.length :=
      Nat.le_antisymm List.count_le_length (by omega)
    intro name unreported
    exact (List.count_eq_length.mp only name unreported).symm
  · intro same name
    unfold accepted
    rw [reportedTo_append, sorted.sorted, all]
    simp only [reportedTo, total_cons, total_nil]
    split
    · rename_i own
      have only := count_eq_length_of_own fun other unreported => (same other unreported).trans own
      omega
    · omega

theorem sorted_accepted {s : Watched} {data : OpLogData} {pending : Nat}
    (sorted : Sorted s (.trySendNotice data pending)) (tx : Channel)
    (same : ∀ name ∈ s.unreported, name = data.logName) :
    Sorted (accepted s tx data pending) (.trySend data) := by
  have attributed := (attributed_accepted sorted tx).mpr same
  refine ⟨rfl, (sorted.swapped data pending (Or.inl rfl)).symm, ?_, ?_⟩
  · intro _ _ either
    rcases either with h | h <;> cases h
  · intro name
    have before := sorted.sorted name
    have after := attributed name
    have all := pending_eq sorted
    simp only [accepted, List.count_nil, Nat.add_zero, reportedTo_append] at after ⊢
    simp only [reportedTo, total_cons, total_nil] at after before ⊢
    split at after
    · rename_i own
      have only := count_eq_length_of_own fun other unreported => (same other unreported).trans own
      rw [if_pos own]
      omega
    · rename_i other
      have none : s.unreported.count name = 0 :=
        List.count_eq_zero.mpr fun unreported => other (same name unreported).symm
      rw [if_neg other]
      omega

/-- Where the caller stands after one of its own steps. -/
theorem moved_alone {s : Watched} {place : SendLog} (sorted : Sorted s place) (next : SendLog) :
    s.senders.threads.set 0 next = [next] := by
  rw [sorted.alone, List.set_cons_zero]

/-- The step of the caller itself. -/
theorem advance_cases {s : Watched} {place : SendLog} (sorted : Sorted s place) :
    (OneLog capacity s (.advance 0) ∧ ∃ place', Sorted (s.step capacity (.advance 0)).1 place') ∨
    ∃ data pending tx, place = .trySendNotice data pending ∧
      (OneLog capacity s (.advance 0) ↔ ∀ name ∈ s.unreported, name = data.logName) ∧
      (s.step capacity (.advance 0)).1 = accepted s tx data pending := by
  have there : s.senders.threads[0]? = some place := by rw [sorted.alone]; rfl
  have moved : s.senders.advance (SendLog.step capacity) 0 = _ := Threads.advance_some there
  have quiet (other : ∀ data pending, place ≠ .trySendNotice data pending) :
      OneLog capacity s (.advance 0) := by
    intro data pending here
    rw [there] at here
    exact absurd (Option.some.inj here) (other data pending)
  unfold Watched.step Senders.step droppedBy
  simp only [there, moved]
  cases place with
  | idle =>
    exact Or.inl ⟨quiet (by simp), .idle,
      sorted_quiet sorted (moved_alone sorted _) rfl (by simp)⟩
  | swap data =>
    refine Or.inl ⟨quiet (by simp), _, sorted_quiet sorted (moved_alone sorted _) ?_ ?_⟩
    · simp only [SendLog.step]
      split
      · exact Nat.zero_add _
      · rename_i none
        exact (Nat.eq_zero_of_not_pos none).symm
    · exact fun _ _ _ => rfl
  | trySendNotice data pending =>
    by_cases free : s.senders.shared.tx.room capacity = true
    · let tx := { s.senders.shared.tx with
        queue := s.senders.shared.tx.queue ++ [OpLogMessage.log (dropNotice data pending)] }
      refine Or.inr ⟨data, pending, tx, rfl, ?_, ?_⟩
      · constructor
        · exact fun oneLog => oneLog data pending there free
        · intro same data' pending' here _
          rw [there] at here
          cases here
          exact same
      · simp only [SendLog.step, Channel.trySend, free, if_true, moved_alone sorted,
          List.append_nil]
        rfl
    · refine Or.inl ⟨fun _ _ _ room => absurd room free, .addPending data pending, ?_⟩
      simp only [SendLog.step, Channel.trySend, if_neg free]
      exact sorted_quiet sorted (moved_alone sorted _) rfl
        fun _ _ _ => sorted.swapped data pending (Or.inl rfl)
  | addPending data pending =>
    refine Or.inl ⟨quiet (by simp), .trySend data,
      sorted_quiet sorted (moved_alone sorted _) rfl (by simp)⟩
  | trySend data =>
    by_cases free : s.senders.shared.tx.room capacity = true
    · refine Or.inl ⟨quiet (by simp), .idle, ?_⟩
      simp only [SendLog.step, Channel.trySend, free, if_true]
      exact sorted_quiet sorted (moved_alone sorted _) rfl (by simp)
    · refine Or.inl ⟨quiet (by simp), .addOne, ?_⟩
      simp only [SendLog.step, Channel.trySend, if_neg free, moved_alone sorted]
      exact sorted_drop sorted
  | addOne =>
    exact Or.inl ⟨quiet (by simp), .idle,
      sorted_quiet sorted (moved_alone sorted _) rfl (by simp)⟩

/-- What a step can do: a notice is accepted, or everything stays sorted. -/
theorem step_cases {s : Watched} {place : SendLog} (sorted : Sorted s place) (event : SendEvent) :
    (OneLog capacity s event ∧ ∃ place', Sorted (s.step capacity event).1 place') ∨
    ∃ data pending tx, place = .trySendNotice data pending ∧
      (OneLog capacity s event ↔ ∀ name ∈ s.unreported, name = data.logName) ∧
      (s.step capacity event).1 = accepted s tx data pending := by
  have absent (thread : Nat) : s.senders.threads[thread + 1]? = none := by rw [sorted.alone]; rfl
  cases event with
  | advance thread =>
    cases thread with
    | zero => exact advance_cases capacity sorted
    | succ thread =>
      refine Or.inl ⟨fun _ _ there => ?_, place, ?_⟩
      · rw [absent] at there
        cases there
      · unfold Watched.step Senders.step droppedBy
        simp only [absent, Threads.advance_none (absent thread)]
        exact sorted_quiet sorted sorted.alone rfl sorted.swapped
  | call thread data =>
    refine Or.inl ⟨trivial, ?_⟩
    unfold Watched.step Senders.step
    cases thread with
    | zero =>
      have there : s.senders.threads[0]? = some place := by rw [sorted.alone]; rfl
      simp only [Threads.advance_some there]
      cases place with
      | idle => exact ⟨.swap data, sorted_quiet sorted (moved_alone sorted _) rfl (by simp)⟩
      | _ => exact ⟨_, sorted_quiet sorted (moved_alone sorted _) rfl sorted.swapped⟩
    | succ thread =>
      simp only [Threads.advance_none (absent thread)]
      exact ⟨place, sorted_quiet sorted sorted.alone rfl sorted.swapped⟩
  | send msg =>
    refine Or.inl ⟨trivial, place, ?_⟩
    unfold Watched.step Senders.step
    by_cases promised : s.senders.shared.tx.reserved > 0
    · simp only [if_pos promised]
      exact sorted_around sorted _
    · simp only [if_neg promised]
      exact sorted_quiet sorted sorted.alone rfl sorted.swapped
  | _ => exact Or.inl ⟨trivial, place, sorted_around sorted _⟩

end Capacity

/-- One caller after another call, whatever the channel does meanwhile: no log is told of more
drops than it has had, in any state, exactly if every notice is accepted at a time when all
unreported drops are of the log it is addressed to. -/
theorem notices_are_attributed_iff (capacity : Nat) (tx : Channel) (events : List SendEvent) :
    Machine.Throughout (Watched.step capacity) Attributed (.start tx) events ↔
      Machine.Allowed (Watched.step capacity) (OneLog capacity) (.start tx) events := by
  have start : ∃ place, Sorted (.start tx) place :=
    ⟨.idle, rfl, rfl, fun _ _ _ => rfl, fun _ => rfl⟩
  refine Machine.throughout_iff_of_invariant (fun s => ∃ place, Sorted s place)
    (fun s sorted => attributed_of_sorted sorted.choose_spec) ?_ ?_ (.start tx) start events
  · intro s event sorted
    obtain ⟨place, sorted⟩ := sorted
    rcases step_cases capacity sorted event with
      ⟨oneLog, place', kept⟩ | ⟨data, pending, tx, rfl, oneLog, taken⟩
    · exact iff_of_true (attributed_of_sorted kept) oneLog
    · rw [taken, oneLog]
      exact attributed_accepted sorted tx
  · intro s event admitted sorted
    obtain ⟨place, sorted⟩ := sorted
    rcases step_cases capacity sorted event with
      ⟨-, kept⟩ | ⟨data, pending, tx, rfl, oneLog, taken⟩
    · exact kept
    · rw [taken]
      exact ⟨_, sorted_accepted sorted tx (oneLog.mp admitted)⟩

/-- Room for two more messages. -/
def nearlyFull : Channel := { Channel.empty with queue := List.replicate 1022 .flush }

/-- The entry of "b" finds a channel that two entries of "a" have filled; then it is "a" that
sends, when two messages were received. -/
def twoLogs : List SendEvent :=
  [.call 0 ⟨"a", "one", 0⟩, .advance 0, .advance 0, .call 0 ⟨"a", "two", 0⟩, .advance 0, .advance 0,
    .call 0 ⟨"b", "three", 0⟩, .advance 0, .advance 0, .advance 0, .recv, .recv,
    .call 0 ⟨"a", "four", 0⟩, .advance 0, .advance 0, .advance 0]

/-- The log "a" has had no drop, and is told of one. -/
theorem other_log_is_told :
    ¬ Machine.Throughout (Watched.step CHANNEL_CAPACITY) Attributed (.start nearlyFull) twoLogs := by
  intro always
  have told := Machine.throughout_final always "a"
  revert told
  decide +kernel

end OpLog.Guarantees.Attribution
