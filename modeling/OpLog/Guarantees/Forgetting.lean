import OpLog.Format.Settled
import OpLog.Guarantees.Drain
import OpLog.Guarantees.QueueCap
import OpLog.Library.Numerals
import OpLog.Source.Apart
import OpLog.Source.Keeping

/-!
# Forgetting an idle file

What `clean_up` throws away with an idle `LogFile`, and what the next entry for the file puts in
its place. The queue, the counts, the time and the error flag of an idle file are those of a new
one; the header comes from the definition either way; what is left is the tail flag. A set flag
means that the tail check would find nothing to cut, so leaving the check out and making it are
the same.
-/
namespace OpLog.Guarantees.Forgetting
open Library Source Format Drain QueueCap

/-! ## One attempt -/

/-- The calls of a tail check that finds nothing to cut. -/
structure Checks (io : TailIo) : Prop where
  openFile : io.openFile = .ok ()
  metadata : io.metadata = .ok ()
  read : io.read = .ok ()
  join : io.join = .ok ()

theorem check_settled {io : TailIo} {content : Bytes} (checks : Checks io) (settled : Settled content) :
    cutInterruptedTail io content = pure () := by
  have check : cutInterruptedTailUpTo io content content TAIL_CHECK_MAX_LEN = pure () := by
    unfold cutInterruptedTailUpTo
    rw [checks.openFile, checks.metadata, checks.read]
    dsimp only
    rcases settled with long | whole
    · rw [if_pos long]
      rfl
    · rw [whole]
      split <;> rfl
  unfold cutInterruptedTail
  rw [check, checks.join]
  rfl

/-- An attempt that is due does the same with the tail flag set as without. -/
theorem attempt_verified {f : LogFile} {flushInterval : Duration} (notice : Option String)
    {env : AttemptEnv} {content : Option Bytes} (due : f.due flushInterval env.now)
    (checks : Checks env.io.tail) (settled : ∀ c ∈ content, Settled c) :
    ({ f with tailVerified := true } : LogFile).writeToFile flushInterval notice env content =
      f.writeToFile flushInterval notice env content := by
  have opened (metadata : IoResult Unit) :
      ({ f with tailVerified := true } : LogFile).openFile env.io content
          (hasContent metadata content) =
        f.openFile env.io content (hasContent metadata content) := by
    unfold LogFile.openFile
    cases content with
    | none => cases metadata <;> rfl
    | some c =>
      rw [Option.getD_some, check_settled checks (settled c rfl)]
      generalize f.tailVerified = flag
      cases flag <;> rfl
  have framed (has : Bool) : ({ f with tailVerified := true } : LogFile).writeFrame notice env has =
      f.writeFrame notice env has := rfl
  rw [writeToFile_due f flushInterval notice env content due,
    writeToFile_due { f with tailVerified := true } flushInterval notice env content due]
  simp only [opened, framed]

/-- What an attempt leaves with the flag set is settled. -/
theorem attempt_settled (warsaw : DateTimeUtc → LocalDateTime) (d : LogDefinition)
    (flushInterval : Duration) (env : AttemptEnv) {f : LogFile} {content : Option Bytes}
    (verified : f.tailVerified = true → ∀ c ∈ content, Settled c) :
    let out := d.writeOne warsaw flushInterval env f content
    out.1.tailVerified = true → ∀ c ∈ applyOps out.2.ops content, Settled c := by
  rcases attempt_kept flushInterval (d.backlogNotice warsaw f env.utcNow) env (.none content) verified
    with ⟨skipped, none⟩ | ⟨error, failed, -⟩ | ⟨written, c, returned, -, -, -, after, settled, -⟩
  · rw [writeOne_ok skipped, none, LogFile.afterSkip_eq]
    exact verified
  · rw [writeOne_error failed]
    intro out flag
    cases flag
  · rw [writeOne_ok returned]
    dsimp only
    rw [after]
    rintro - _ ⟨⟩
    exact settled

/-- With or without the flag, an attempt is the same and leaves the same, but for the flag. -/
theorem attempt_alike (warsaw : DateTimeUtc → LocalDateTime) (d : LogDefinition)
    (flushInterval : Duration) (env : AttemptEnv) {f : LogFile} {flag : Bool}
    {content : Option Bytes} (implied : f.tailVerified = true → flag = true)
    (settled : flag = true → ∀ c ∈ content, Settled c)
    (checks : f.tailVerified ≠ flag → f.logs ≠ [] → Checks env.io.tail) :
    let out := d.writeOne warsaw flushInterval env f content
    let out' := d.writeOne warsaw flushInterval env { f with tailVerified := flag } content
    out'.2 = out.2 ∧ ∃ flag', out'.1 = { out.1 with tailVerified := flag' } ∧
      (out.1.tailVerified = true → flag' = true) ∧
      (flag' = true → ∀ c ∈ applyOps out.2.ops content, Settled c) ∧
      (out.1.tailVerified ≠ flag' → f.tailVerified ≠ flag ∧ ¬ f.due flushInterval env.now) := by
  intro out out'
  have after : out'.1.tailVerified = true → ∀ c ∈ applyOps out'.2.ops content, Settled c :=
    attempt_settled warsaw d flushInterval env settled
  by_cases due : f.due flushInterval env.now
  · have same : out' = out := by
      by_cases equal : f.tailVerified = flag
      · simp only [out, out', ← equal]
      · have unset : f.tailVerified = false := by
          cases verified : f.tailVerified with
          | false => rfl
          | true => exact absurd (verified.trans (implied verified).symm) equal
        have set : flag = true := by
          cases flag with
          | true => rfl
          | false => exact absurd unset equal
        subst set
        have write := attempt_verified (d.backlogNotice warsaw f env.utcNow) due (checks equal due.1)
          (settled rfl)
        simp only [out, out']
        unfold LogDefinition.writeOne
        rw [show d.backlogNotice warsaw { f with tailVerified := true } env.utcNow =
          d.backlogNotice warsaw f env.utcNow from rfl, write]
    rw [same] at after ⊢
    exact ⟨rfl, out.1.tailVerified, rfl, id, after, fun different => absurd rfl different⟩
  · have skipped (g : LogFile) (idle : ¬ g.due flushInterval env.now) :
        d.writeOne warsaw flushInterval env g content =
          ({ g.afterSkip with writeErrorLogged := false }, ⟨[], .ok none, false⟩) := by
      rcases writeOne_outcome warsaw d flushInterval env g content with
        ⟨-, skipped⟩ | ⟨ops, e, due', -⟩ | ⟨ops, has, frame, due', -⟩
      · exact skipped
      · exact absurd due' idle
      · exact absurd due' idle
    have first : out = _ := skipped f due
    have second : out' = _ := skipped { f with tailVerified := flag } due
    rw [LogFile.afterSkip_eq] at first second
    rw [first, second]
    exact ⟨rfl, flag, rfl, implied, settled, fun different => ⟨different, due⟩⟩

/-! ## Where a file is -/

def slashes (text : String) : Nat := text.toList.count '/'

theorem slashes_append (text more : String) : slashes (text ++ more) = slashes text + slashes more := by
  unfold slashes
  rw [String.toList_append, List.count_append]

theorem slashes_padZero (width n : Nat) : slashes (padZero width n) = 0 := by
  unfold slashes padZero
  rw [String.toList_ofList, List.count_eq_zero]
  intro member
  rcases List.mem_append.mp member with zero | digit
  · have same := List.eq_of_mem_replicate zero
    cases same
  · have digits := Nat.isDigit_of_mem_toDigits (by decide) (by decide) digit
    cases digits

theorem slashes_item {item : Item} (date : LocalDateTime)
    (quiet : item = .literal "_" ∨ ∃ spec, item = .numeric spec) : slashes (item.format date) = 0 := by
  rcases quiet with rfl | ⟨spec, rfl⟩
  · change slashes "_" = 0
    decide
  · unfold Item.format Numeric.format
    cases spec with
    | year =>
      dsimp only
      split
      · exact slashes_padZero _ _
      · rw [slashes_append, slashes_padZero]
        split <;> rfl
    | _ => exact slashes_padZero _ _

/-- No date in a path has a slash. -/
theorem slashes_writeDate (date : LocalDateTime) (logType : OpLogType) :
    slashes (writeDate date (formatDateInPath logType)) = 0 := by
  have quiet : ∀ item ∈ formatDateInPath logType, item = .literal "_" ∨ ∃ spec, item = .numeric spec := by
    cases logType <;> simp [formatDateInPath, HOUR_IN_PATH, DAY_IN_PATH, MONTH_IN_PATH]
  unfold slashes writeDate
  rw [String.toList_join, List.count_eq_zero]
  intro member
  obtain ⟨text, listed, slash⟩ := List.mem_flatMap.mp member
  obtain ⟨item, chosen, rfl⟩ := List.mem_map.mp listed
  exact List.count_eq_zero.mp (slashes_item date (quiet item chosen)) slash

/-- The file's name and directory are those of its key and of its definition's name. -/
structure Located (name key : String) (f : LogFile) : Prop where
  key : key = f.path ++ "/" ++ f.logName
  name : slashes f.logName = slashes name

/-- The name of a definition and a key in its map determine the directory and the name on
disk. -/
theorem Located.unique {name key : String} {f g : LogFile} (located : Located name key f)
    (located' : Located name key g) : f.path = g.path ∧ f.logName = g.logName := by
  have same : f.path ++ "/" ++ f.logName = g.path ++ "/" ++ g.logName :=
    located.key.symm.trans located'.key
  have chars := congrArg String.toList same
  simp only [String.toList_append] at chars
  have count : f.logName.toList.count '/' = g.logName.toList.count '/' :=
    located.name.trans located'.name.symm
  have slash : "/".toList = ['/'] := rfl
  rw [slash, List.append_assoc, List.append_assoc] at chars
  obtain ⟨path, logName⟩ := Numerals.split_at_mark chars count
  exact ⟨String.toList_inj.mp path, String.toList_inj.mp logName⟩

/-- Where an entry goes. -/
theorem located_route {d : LogDefinition} {name : String} (date : LocalDateTime) (log : String)
    {f : LogFile} (path : f.path = (d.route name date log).path)
    (logName : f.logName = (d.route name date log).logName) :
    Located name (d.route name date log).key f := by
  have dates := slashes_writeDate date d.logType
  refine ⟨by rw [path, logName]; rfl, ?_⟩
  rw [logName]
  unfold LogDefinition.route
  dsimp only
  split
  · rw [slashes_append]
    rfl
  · split
    · rw [slashes_append]
      rfl
    · rw [slashes_append, slashes_append, slashes_append, dates]
      rfl

/-! ## Idle files -/

/-- What a `LogFile` without entries is like. -/
structure Rested (f : LogFile) : Prop where
  capped : Capped f
  time : f.logs = [] → f.timeOfFirstAdditionOfLogAfterWrite = none
  reported : f.logs = [] → f.writeErrorLogged = false

/-- The fields in which an idle `LogFile` is like a new one. -/
structure Idle (f : LogFile) : Prop where
  logs : f.logs = []
  queuedBytes : f.queuedBytes = 0
  droppedLogs : f.droppedLogs = 0
  time : f.timeOfFirstAdditionOfLogAfterWrite = none
  reported : f.writeErrorLogged = false

theorem idle_of_rested {f : LogFile} (rested : Rested f) (empty : f.logs = []) : Idle f where
  logs := empty
  queuedBytes := by rw [rested.capped.bytes, empty, total_nil]
  droppedLogs := by
    by_contra counted
    exact rested.capped.counted (Nat.pos_of_ne_zero counted) empty
  time := rested.time empty
  reported := rested.reported empty

theorem rested_queue (d : LogDefinition) {live : Option LogFile} (rested : ∀ f, live = some f → Rested f)
    (logName path log : String) (now : Instant) :
    Rested ((d.getLogFile live logName path now).addToLog log now) := by
  have capped := capped_getLogFile d (fun f same => (rested f same).capped) logName path now
  have some_left := LogFile.addToLog_ne_nil (d.getLogFile live logName path now) log now
  exact ⟨(addToLog_exact capped log now).2.1, fun empty => absurd empty some_left,
    fun empty => absurd empty some_left⟩

section Warsaw
variable (warsaw : DateTimeUtc → LocalDateTime)

theorem rested_attempt {f : LogFile} (rested : Rested f) (d : LogDefinition)
    (flushInterval : Duration) (env : AttemptEnv) (content : Option Bytes) :
    Rested (d.writeOne warsaw flushInterval env f content).1 := by
  refine ⟨capped_attempt warsaw rested.capped d flushInterval env content, ?_, ?_⟩
  · rcases writeOne_outcome warsaw d flushInterval env f content with
      ⟨-, skipped⟩ | ⟨ops, e, due, failed⟩ | ⟨ops, has, frame, -, -, written⟩
    · rw [skipped, LogFile.afterSkip_eq]
      intro empty
      exact if_pos (List.isEmpty_iff.mpr empty)
    · rw [failed]
      exact fun empty => absurd empty due.1
    · rw [written]
      intro empty
      exact if_pos (List.isEmpty_iff.mpr empty)
  · rcases writeOne_outcome warsaw d flushInterval env f content with
      ⟨-, skipped⟩ | ⟨ops, e, due, failed⟩ | ⟨ops, has, frame, -, -, written⟩
    · rw [skipped]
      exact fun _ => rfl
    · rw [failed]
      exact fun empty => absurd empty due.1
    · rw [written]
      exact fun _ => rfl

/-- An attempt on an idle file changes nothing. -/
theorem attempt_idle {f : LogFile} (idle : Idle f) (d : LogDefinition) (flushInterval : Duration)
    (env : AttemptEnv) (content : Option Bytes) :
    d.writeOne warsaw flushInterval env f content = (f, ⟨[], .ok none, false⟩) := by
  rcases writeOne_outcome warsaw d flushInterval env f content with
    ⟨-, skipped⟩ | ⟨ops, e, due, -⟩ | ⟨ops, has, frame, due, -⟩
  · obtain ⟨lastTimeUse, time, logName, header, path, logs, queuedBytes, droppedLogs, reported, flag⟩ := f
    obtain ⟨rfl, rfl, rfl, rfl, rfl⟩ := idle
    exact skipped
  · exact absurd idle.logs due.1
  · exact absurd idle.logs due.1

end Warsaw

/-! ## A file with the worker that forgets and with the one that does not -/

/-- The `LogFile` under one key, with either worker: the same but for the tail flag, unless the
one worker has forgotten it and it is idle with the other. A set flag is only kept for a `sound`
path. -/
inductive Kin (sound : String → Prop) (name key : String) : Option LogFile → Option LogFile → Prop where
  | absent : Kin sound name key none none
  | forgotten {g : LogFile} (idle : Idle g) (located : Located name key g)
      (flagged : g.tailVerified = true → sound g.diskPath) : Kin sound name key none (some g)
  | live {f : LogFile} (flag : Bool) (rested : Rested f) (located : Located name key f)
      (implied : f.tailVerified = true → flag = true) (flagged : flag = true → sound f.diskPath) :
      Kin sound name key (some f) (some { f with tailVerified := flag })

variable {sound sound' : String → Prop} {name key : String} {live kept : Option LogFile}

theorem Kin.mono (kin : Kin sound name key live kept) (implies : ∀ path, sound path → sound' path) :
    Kin sound' name key live kept := by
  cases kin with
  | absent => exact .absent
  | forgotten idle located flagged =>
    exact .forgotten idle located fun set => implies _ (flagged set)
  | live flag rested located implied flagged =>
    exact .live flag rested located implied fun set => implies _ (flagged set)

theorem Located.congr {name key : String} {f g : LogFile} (located : Located name key f)
    (path : g.path = f.path) (logName : g.logName = f.logName) : Located name key g where
  key := by rw [path, logName]; exact located.key
  name := by rw [logName]; exact located.name

/-- What an addition makes of an idle file is what it makes of a new one in its place, but for
the tail flag. -/
theorem addToLog_idle {g : LogFile} (idle : Idle g) (d : LogDefinition) (log : String)
    (now : Instant) :
    ({ g with header := d.header } : LogFile).addToLog log now =
      { (d.getLogFile none g.logName g.path now).addToLog log now with
        tailVerified := g.tailVerified } := by
  obtain ⟨lastTimeUse, time, logName, header, path, logs, queuedBytes, droppedLogs, reported, flag⟩ := g
  obtain ⟨rfl, rfl, rfl, rfl, rfl⟩ := idle
  rfl

theorem kin_queue {d : LogDefinition} {date : LocalDateTime} {log : String} (now : Instant)
    (kin : Kin sound name (d.route name date log).key live kept) :
    let r := d.route name date log
    Kin sound name r.key (some ((d.getLogFile live r.logName r.path now).addToLog r.entry now))
      (some ((d.getLogFile kept r.logName r.path now).addToLog r.entry now)) := by
  intro r
  have fresh : Located name r.key ((d.getLogFile none r.logName r.path now).addToLog r.entry now) :=
    located_route date log rfl rfl
  have new : Rested ((d.getLogFile none r.logName r.path now).addToLog r.entry now) :=
    rested_queue d (by simp) r.logName r.path r.entry now
  cases kin with
  | absent => exact .live false new fresh id (fun unset => by cases unset)
  | @forgotten g idle located flagged =>
    obtain ⟨path, logName⟩ := located.unique fresh
    have path : g.path = r.path := path
    have logName : g.logName = r.logName := logName
    have place : g.diskPath = ((d.getLogFile none r.logName r.path now).addToLog r.entry now).diskPath :=
      LogFile.diskPath_congr path logName
    rw [LogDefinition.getLogFile_some, addToLog_idle idle, path, logName]
    rw [place] at flagged
    exact .live g.tailVerified new fresh (fun unset => by cases unset) flagged
  | @live f flag rested located implied flagged =>
    rw [LogDefinition.getLogFile_some, LogDefinition.getLogFile_some]
    have here (g : LogFile) (same : some f = some g) : Rested g := by
      cases same
      exact rested
    have queued := rested_queue d here r.logName r.path r.entry now
    rw [LogDefinition.getLogFile_some] at queued
    exact .live flag queued (located.congr rfl rfl) implied flagged

/-- What clean-up forgets is idle. -/
theorem kin_cleanUp (kin : Kin sound name key live kept) (now : Instant) :
    Kin sound name key (live.filter (·.inUse now)) kept := by
  cases kin with
  | absent => exact .absent
  | forgotten idle located flagged => exact .forgotten idle located flagged
  | @live f flag rested located implied flagged =>
    by_cases used : f.inUse now
    · rw [Option.filter_some, if_pos used]
      exact .live flag rested located implied flagged
    · rw [Option.filter_some, if_neg used]
      have empty : f.logs = [] := by
        unfold LogFile.inUse at used
        simp only [Bool.or_eq_true, not_or] at used
        simpa using used.1
      obtain ⟨logs, queuedBytes, droppedLogs, time, reported⟩ := idle_of_rested rested empty
      exact .forgotten ⟨logs, queuedBytes, droppedLogs, time, reported⟩ (located.congr rfl rfl) flagged

/-- An entry is queued for a file whose tail is to be checked by the one worker only. -/
def OneChecks (live kept : Option LogFile) : Prop :=
  ∃ f g, live = some f ∧ kept = some g ∧ f.logs ≠ [] ∧ f.tailVerified ≠ g.tailVerified

/-- Where the worker that forgets has no entries, neither has the other. -/
theorem Kin.idle (kin : Kin sound name key live kept) (empty : ∀ f, live = some f → f.logs = []) :
    (∀ f, live = some f → Idle f) ∧ ∀ g, kept = some g → Idle g := by
  cases kin with
  | absent => exact ⟨by simp, by simp⟩
  | forgotten idle located flagged =>
    refine ⟨by simp, ?_⟩
    rintro _ ⟨⟩
    exact idle
  | live flag rested located implied flagged =>
    obtain ⟨logs, queuedBytes, droppedLogs, time, reported⟩ := idle_of_rested rested (empty _ rfl)
    constructor
    · rintro _ ⟨⟩
      exact ⟨logs, queuedBytes, droppedLogs, time, reported⟩
    · rintro _ ⟨⟩
      exact ⟨logs, queuedBytes, droppedLogs, time, reported⟩

section Warsaw
variable (warsaw : DateTimeUtc → LocalDateTime)

theorem step_idle (idle : ∀ f, live = some f → Idle f) (d : LogDefinition) (flushInterval : Duration)
    (env : AttemptEnv) (content : Option Bytes) :
    let out := FileOp.step warsaw live (.attempt d flushInterval env content)
    out.1 = live ∧ out.2.filterMap Attempt.report = [] := by
  cases live with
  | none => exact ⟨rfl, rfl⟩
  | some f =>
    unfold FileOp.step
    dsimp only
    rw [attempt_idle warsaw (idle f rfl)]
    exact ⟨rfl, rfl⟩

/-- One attempt of either worker on a file with entries: they do the same to the file on disk,
report the same, and leave the like. Where the interval is zero, both leave the same flag. -/
theorem kin_attempt {f : LogFile} (kin : Kin sound name key (some f) kept) (after : String → Prop)
    (d : LogDefinition) (files : KeyedMap String LogFile) (flushInterval : Duration) (env : AttemptEnv)
    (content : Option Bytes) (queued : f.logs ≠ [])
    (settled : sound f.diskPath → ∀ c ∈ content, Settled c)
    (checks : OneChecks (some f) kept → Checks env.io.tail) :
    let out := FileOp.step warsaw (some f) (.attempt d flushInterval env content)
    let out' := FileOp.step warsaw kept (.attempt { d with files } flushInterval env content)
    out'.2 = out.2 ∧
      (((∀ c ∈ applyOps (out.2.flatMap Attempt.ops) content, Settled c) → after f.diskPath) →
        Kin after name key out.1 out'.1) ∧
      ((∀ f', out.1 = some f' → f'.logs = []) →
        ∀ c ∈ applyOps (out.2.flatMap Attempt.ops) content, Settled c) ∧
      (flushInterval = Duration.fromMillis 0 → ¬ OneChecks out.1 out'.1) := by
  cases kin with
  | live flag rested located implied flagged =>
    have allowed : f.tailVerified ≠ flag → f.logs ≠ [] → Checks env.io.tail :=
      fun different queued => checks ⟨f, _, rfl, rfl, queued, different⟩
    have alike := attempt_alike warsaw d flushInterval env implied (fun set => settled (flagged set))
      allowed
    obtain ⟨path, logName⟩ := d.writeOne_place warsaw flushInterval env f content
    have rested' := rested_attempt warsaw rested d flushInterval env content
    have place := LogFile.diskPath_congr path logName
    have outcome := writeOne_outcome warsaw d flushInterval env f content
    have due := due_at_once f env.now queued
    unfold FileOp.step
    have bare : ({ d with files } : LogDefinition).writeOne warsaw flushInterval env
        { f with tailVerified := flag } content =
      d.writeOne warsaw flushInterval env { f with tailVerified := flag } content := rfl
    dsimp only at alike outcome ⊢
    rw [bare, List.flatMap_cons, List.flatMap_nil, List.append_nil]
    generalize d.writeOne warsaw flushInterval env f content = out at *
    generalize d.writeOne warsaw flushInterval env { f with tailVerified := flag } content = out' at *
    obtain ⟨after', attempt'⟩ := out'
    obtain ⟨rfl, flag', rfl, implied', settled', differ⟩ := alike
    refine ⟨rfl, fun left => ?_, fun drained => ?_, ?_⟩
    · refine .live flag' rested' (located.congr path logName) implied' fun set => ?_
      rw [place]
      exact left (settled' set)
    · have empty := drained out.1 rfl
      rcases outcome with ⟨-, skipped⟩ | ⟨ops, e, -, failed⟩ | ⟨ops, has, frame, -, -, written⟩
      · rw [skipped, LogFile.afterSkip_eq] at empty
        exact absurd empty queued
      · rw [failed] at empty
        exact absurd empty queued
      · apply settled'
        apply implied'
        rw [written]
        rfl
    · rintro rfl ⟨f', g', ⟨⟩, ⟨⟩, -, different⟩
      exact (differ different).2 due

end Warsaw
end OpLog.Guarantees.Forgetting
