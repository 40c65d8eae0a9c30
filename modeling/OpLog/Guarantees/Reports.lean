import OpLog.Guarantees.OneFile
import OpLog.Source.FileOps

/-!
# One error report per failure episode?

An episode of failures on a file ends when a frame is written. The first failure of an
episode is reported, and `write_error_logged` is the note of it. But an attempt that is not
due writes nothing and returns `Ok` as well, and its caller takes back the note.
-/
namespace OpLog.Guarantees.Reports
open Library Source

/-- A file, and the errors reported for it since its last frame. -/
structure Episode where
  live : Option LogFile
  reported : Nat

def reportedAfter (reported : Nat) (attempt : Attempt) : Nat :=
  if attempt.written.isSome then 0
  else if attempt.reported then reported + 1 else reported

section Warsaw
variable (warsaw : DateTimeUtc → LocalDateTime)

namespace Episode

def step (s : Episode) (op : FileOp) : Episode × List Attempt :=
  let out := op.step warsaw s.live
  (⟨out.1, out.2.foldl reportedAfter s.reported⟩, out.2)

def start : Episode := ⟨none, 0⟩

end Episode

/-- At most one error was reported in the episode, and if one was it is noted. -/
def OneReport (s : Episode) : Prop :=
  s.reported ≤ 1 ∧ (s.reported = 1 → ∃ f, s.live = some f ∧ f.writeErrorLogged = true)

/-- Where a failure is noted, no attempt is made before the interval has passed. -/
def NotEarly (s : Episode) : FileOp → Prop
  | .attempt _ flushInterval env _ => ∀ f, s.live = some f → f.writeErrorLogged = true →
      f.early flushInterval env.now = false
  | _ => True

/-- The note and the count agree, and a file with a note has an entry still to be written. -/
structure Noted (s : Episode) : Prop where
  bound : s.reported ≤ 1
  flag : s.reported = 1 ↔ ∃ f, s.live = some f ∧ f.writeErrorLogged = true
  queued : ∀ f, s.live = some f → f.writeErrorLogged = true → f.logs ≠ []

theorem oneReport_of_noted {s : Episode} (noted : Noted s) : OneReport s :=
  ⟨noted.bound, noted.flag.mp⟩

theorem reported_of_flag {f : LogFile} {reported : Nat} (noted : Noted ⟨some f, reported⟩) :
    reported = if f.writeErrorLogged then 1 else 0 := by
  have bound : reported ≤ 1 := noted.bound
  have flag := noted.flag
  cases noting : f.writeErrorLogged with
  | true => exact flag.mpr ⟨f, rfl, noting⟩
  | false =>
    have not_one : reported ≠ 1 := by
      intro one
      obtain ⟨g, same, set⟩ := flag.mp one
      cases same
      rw [noting] at set
      cases set
    simp only [Bool.false_eq_true, if_false]
    omega

theorem noted_some (f : LogFile) (queued : f.writeErrorLogged = true → f.logs ≠ []) :
    Noted ⟨some f, if f.writeErrorLogged then 1 else 0⟩ := by
  refine ⟨?_, ?_, ?_⟩
  · dsimp only
    split <;> decide
  · cases noting : f.writeErrorLogged <;> simp [noting]
  · intro g same
    cases same
    exact queued

theorem noted_none : Noted ⟨none, 0⟩ := ⟨Nat.zero_le 1, by simp, by simp⟩

theorem reported_of_none {reported : Nat} (noted : Noted ⟨none, reported⟩) : reported = 0 := by
  have bound : reported ≤ 1 := noted.bound
  have not_one : reported ≠ 1 := by
    intro one
    obtain ⟨f, absent, -⟩ := noted.flag.mp one
    cases absent
  omega

/-! ## Steps -/

theorem queue_flag (d : LogDefinition) (live : Option LogFile) (r : Route) (now : Instant) :
    ((d.getLogFile live r.logName r.path now).addToLog r.entry now).writeErrorLogged =
      live.elim false (·.writeErrorLogged) := by
  cases live with
  | none => rfl
  | some f =>
    rw [d.getLogFile_some]
    rfl

theorem noted_queue {s : Episode} (noted : Noted s) (d : LogDefinition) (r : Route)
    (now : Instant) : Noted (s.step warsaw (.queue d r now)).1 := by
  obtain ⟨live, reported⟩ := s
  have same : reported = if live.elim false (·.writeErrorLogged) then 1 else 0 := by
    cases live with
    | none => exact reported_of_none noted
    | some f => exact reported_of_flag noted
  rw [← queue_flag d live r now] at same
  subst same
  exact noted_some _ fun _ => LogFile.addToLog_ne_nil _ _ _

theorem noted_cleanUp {s : Episode} (noted : Noted s) (now : Instant) :
    Noted (s.step warsaw (.cleanUp now)).1 := by
  obtain ⟨live, reported⟩ := s
  unfold Episode.step FileOp.step
  simp only [List.foldl_nil]
  cases live with
  | none => exact noted
  | some f =>
    by_cases used : f.inUse now
    · rw [Option.filter_some, if_pos used]
      exact noted
    · have unnoted : f.writeErrorLogged = false := by
        cases noting : f.writeErrorLogged with
        | false => rfl
        | true =>
          have queued := noted.queued f rfl noting
          simp [LogFile.inUse, queued] at used
      have none_reported := reported_of_flag noted
      rw [unnoted] at none_reported
      rw [Option.filter_some, if_neg used, none_reported]
      exact noted_none

/-- An attempt that is early although a failure is noted takes back the note; any other
leaves note and count in agreement. -/
theorem attempt_cases {s : Episode} (noted : Noted s) (d : LogDefinition) (flushInterval : Duration)
    (env : AttemptEnv) (content : Option Bytes) :
    let op := FileOp.attempt d flushInterval env content
    (NotEarly s op ∧ Noted (s.step warsaw op).1) ∨
      ¬ NotEarly s op ∧ ¬ OneReport (s.step warsaw op).1 := by
  obtain ⟨live, reported⟩ := s
  cases live with
  | none => exact Or.inl ⟨by simp [NotEarly], noted⟩
  | some f =>
    have count := reported_of_flag noted
    unfold Episode.step FileOp.step NotEarly
    rcases writeOne_outcome warsaw d flushInterval env f content with
      ⟨idle, skipped⟩ | ⟨ops, e, due, failed⟩ | ⟨ops, has, frame, due, encoded, written⟩
    · simp only [skipped, LogFile.afterSkip_eq, List.foldl_cons, List.foldl_nil]
      cases noting : f.writeErrorLogged with
      | false =>
        rw [noting] at count
        subst count
        exact Or.inl ⟨fun g same set => by cases same; simp [noting] at set,
          noted_some _ (by simp)⟩
      | true =>
        rw [noting] at count
        subst count
        refine Or.inr ⟨fun notEarly => ?_, fun one => ?_⟩
        · exact idle ⟨noted.queued f rfl noting, notEarly f rfl noting⟩
        · obtain ⟨g, same, set⟩ := one.2 rfl
          cases same
          cases set
    · simp only [failed, List.foldl_cons, List.foldl_nil]
      have one : reportedAfter reported ⟨ops, .error e, !f.writeErrorLogged⟩ = 1 := by
        unfold reportedAfter
        rw [count]
        cases f.writeErrorLogged <;> rfl
      rw [one]
      exact Or.inl ⟨fun g same _ => by cases same; exact due.2, noted_some _ fun _ => due.1⟩
    · simp only [written, List.foldl_cons, List.foldl_nil]
      exact Or.inl ⟨fun g same _ => by cases same; exact due.2, noted_some _ (by simp)⟩

theorem step_cases {s : Episode} (noted : Noted s) (op : FileOp) :
    (NotEarly s op ∧ Noted (s.step warsaw op).1) ∨
      ¬ NotEarly s op ∧ ¬ OneReport (s.step warsaw op).1 := by
  cases op with
  | queue d r now => exact Or.inl ⟨trivial, noted_queue warsaw noted d r now⟩
  | attempt d flushInterval env content =>
    exact attempt_cases warsaw noted d flushInterval env content
  | cleanUp now => exact Or.inl ⟨trivial, noted_cleanUp warsaw noted now⟩

/-- In every run and for every file: never more than one error is reported between frames,
and the one that was stays noted, exactly if no attempt is early on a file with a note. -/
theorem errors_are_reported_once_iff (disk : Disk) (events : List Event) (name key : String) :
    let ops := World.opsOf warsaw name key ⟨.new, disk⟩ events
    Machine.Throughout (Episode.step warsaw) OneReport .start ops ↔
      Machine.Allowed (Episode.step warsaw) NotEarly .start ops := by
  intro ops
  refine Machine.throughout_iff_of_invariant Noted (fun s => oneReport_of_noted) ?_ ?_ .start
    noted_none ops
  · intro s op noted
    rcases step_cases warsaw noted op with ⟨notEarly, kept⟩ | ⟨early, lost⟩
    · exact iff_of_true (oneReport_of_noted kept) notEarly
    · exact iff_of_false lost early
  · intro s op notEarly noted
    rcases step_cases warsaw noted op with ⟨-, kept⟩ | ⟨early, -⟩
    · exact kept
    · exact absurd notEarly early

end Warsaw

/-- The disk is full: the file is not even created. -/
def diskFull (now : Instant) : AttemptEnv :=
  ⟨now, 0, 7, Format.storedDeflater, { allDone with create := .failed .storageFull false }⟩

/-- An entry, a flush that fails at once, a tick before the interval has passed, and a tick
after it. -/
def earlyTick : List Event :=
  [.message ⟨0, ⟨fun _ => passEnv (diskFull 0), 0⟩⟩
      (.logDefinition ⟨"app", .noSplit, "", "logs", [], Duration.fromSecs 30, false⟩),
    .message ⟨0, ⟨fun _ => passEnv (diskFull 0), 0⟩⟩ (.log ⟨"app", "one", 0⟩),
    .message ⟨0, ⟨fun _ => passEnv (diskFull 0), 0⟩⟩ .flush,
    .writerTick (passEnv (diskFull (Duration.fromSecs 5))),
    .writerTick (passEnv (diskFull (Duration.fromSecs 30)))]

/-- The same failure is reported twice, with no frame in between. -/
theorem reported_twice :
    ¬ Machine.Throughout (Episode.step warsawAtEpoch) OneReport .start
      (World.opsOf warsawAtEpoch "app" "logs/app.log" ⟨.new, fun _ => none⟩ earlyTick) := by
  intro always
  have one := (Machine.throughout_final always).1
  revert one
  decide +kernel

end OpLog.Guarantees.Reports
