import OpLog.Guarantees.Forgetting

/-!
# A worker that forgets and one that does not

What the two have in common: the same definitions but for their files, and under each key files
that are kin. Each operation of the worker keeps this; a pass makes both report the same errors
and leave the same disk, as long as no two `LogFile`s have entries for the same file and a tail
check that only the one worker makes succeeds.
-/
namespace OpLog.Guarantees.TwoWorkers
open Library Source Format Forgetting

/-- A definition without its files. -/
def bare (d : LogDefinition) : LogDefinition := { d with files := .empty }

/-- A tail check for the file under `name` and `key` has nothing to cut at `path`, unless there
are entries of another file to be written there first. -/
def Sound (disk : Disk) (w : OpLogWorker) (name key path : String) : Prop :=
  (∀ c ∈ disk path, Settled c) ∨
    ∃ name' key' f, ¬ (name' = name ∧ key' = key) ∧ w.file? name' key' = some f ∧
      f.diskPath = path ∧ f.logs ≠ []

/-- A disk with less on it, and a worker with no fewer entries. -/
theorem Sound.mono {disk disk' : Disk} {w u : OpLogWorker} {name key path : String}
    (sound : Sound disk w name key path) (fewer : ∀ path, ∀ c ∈ disk' path, c ∈ disk path)
    (still : ∀ name key f, w.file? name key = some f → f.logs ≠ [] →
      ∃ f', u.file? name key = some f' ∧ f'.diskPath = f.diskPath ∧ f'.logs ≠ []) :
    Sound disk' u name key path := by
  rcases sound with settled | ⟨name', key', f, other, live, place, queued⟩
  · exact Or.inl fun c left => settled c (fewer path c left)
  · obtain ⟨f', live', place', queued'⟩ := still name' key' f live queued
    exact Or.inr ⟨name', key', f', other, live', place'.trans place, queued'⟩

/-- What the two workers have in common on one disk. -/
structure Alike (disk : Disk) (w w' : OpLogWorker) : Prop where
  definitions : ∀ name, (w'.definitions.get? name).map bare = (w.definitions.get? name).map bare
  lasting : ∀ name d, w.definitions.get? name = some d → d.autoRemoveDefinition = false
  files : ∀ name key, Kin (Sound disk w name key) name key (w.file? name key) (w'.file? name key)

theorem alike_new (disk : Disk) : Alike disk .new .new where
  definitions _ := rfl
  lasting _ _ stored := by cases stored
  files _ _ := .absent

section Alike
variable {disk : Disk} {w w' : OpLogWorker}

/-- A definition is registered with both workers or with none. -/
theorem alike_definition (alike : Alike disk w w') (name : String) :
    (w.definitions.get? name = none ∧ w'.definitions.get? name = none) ∨
      ∃ d files, w.definitions.get? name = some d ∧
        w'.definitions.get? name = some { d with files } ∧ d.autoRemoveDefinition = false := by
  have same := alike.definitions name
  have lasting := alike.lasting name
  cases stored : w.definitions.get? name with
  | none =>
    rw [stored, Option.map_none, Option.map_eq_none_iff] at same
    exact Or.inl ⟨rfl, same⟩
  | some d =>
    rw [stored, Option.map_some, Option.map_eq_some_iff] at same
    obtain ⟨d', stored', same⟩ := same
    have kept : d' = { d with files := d'.files } := by
      obtain ⟨lastTimeUse, autoRemove, header, path, flushInterval, logType, options, files⟩ := d
      cases same
      rfl
    exact Or.inr ⟨d, d'.files, rfl, by rw [stored', ← kept], lasting d stored⟩

/-! ## Messages -/

theorem alike_define (alike : Alike disk w w') {d : OpLogDefinition}
    (lasts : d.autoRemoveDefinition = false) (now : Instant) :
    Alike disk (w.define d now) (w'.define d now) where
  definitions name := by
    unfold OpLogWorker.define
    simp only [KeyedMap.get?_insert]
    split
    · rcases alike_definition alike d.logName with ⟨absent, absent'⟩ | ⟨old, files, stored, stored', -⟩
      · rw [absent, absent']
      · rw [stored, stored']
        rfl
    · exact alike.definitions name
  lasting name stored there := by
    obtain ⟨new, auto, -, registered⟩ := w.get?_define d now name
    rw [registered] at there
    split at there
    · cases there
      exact auto.trans lasts
    · exact alike.lasting name stored there
  files name key := by
    rw [OpLogWorker.file?_define, OpLogWorker.file?_define]
    refine (alike.files name key).mono fun path sound => sound.mono (fun _ _ => id) ?_
    intro name' key' f live queued
    exact ⟨f, by rw [OpLogWorker.file?_define, live], rfl, queued⟩

theorem alike_define_all (alike : Alike disk w w') {definitions : List OpLogDefinition}
    (last : ∀ d ∈ definitions, d.autoRemoveDefinition = false) (now : Instant) :
    Alike disk (definitions.foldl (fun w d => w.define d now) w)
      (definitions.foldl (fun w d => w.define d now) w') := by
  induction definitions generalizing w w' with
  | nil => exact alike
  | cons d definitions ih =>
    apply ih
    · exact alike_define alike (last d List.mem_cons_self) now
    · exact fun d' member => last d' (List.mem_cons_of_mem _ member)

section Warsaw
variable (warsaw : DateTimeUtc → LocalDateTime)

/-- A file with entries still has some after `log`. -/
theorem queued_log {data : OpLogData} {d : LogDefinition} (now : Instant)
    (stored : w.definitions.get? data.logName = some d) {name key : String} {f : LogFile}
    (live : w.file? name key = some f) (queued : f.logs ≠ []) :
    ∃ f', (w.log warsaw data.logName data.date data.log now).file? name key = some f' ∧
      f'.diskPath = f.diskPath ∧ f'.logs ≠ [] := by
  have file := OpLogWorker.file?_log_stored warsaw now stored name key
  dsimp only at file
  rw [file, live, LogDefinition.getLogFile_some]
  split
  · exact ⟨_, rfl, rfl, LogFile.addToLog_ne_nil _ _ now⟩
  · exact ⟨f, rfl, rfl, queued⟩

theorem alike_log (alike : Alike disk w w') (data : OpLogData) (now : Instant) :
    Alike disk (w.log warsaw data.logName data.date data.log now)
      (w'.log warsaw data.logName data.date data.log now) := by
  rcases alike_definition alike data.logName with ⟨absent, absent'⟩ | ⟨d, files, stored, stored', lasts⟩
  · unfold OpLogWorker.log
    rw [absent, absent']
    exact alike
  · constructor
    · intro name
      unfold OpLogWorker.log
      simp only [stored, stored', KeyedMap.get?_insert]
      split
      · rfl
      · exact alike.definitions name
    · intro name d' there
      unfold OpLogWorker.log at there
      simp only [stored, KeyedMap.get?_insert] at there
      split at there
      · cases there
        exact lasts
      · exact alike.lasting name d' there
    · intro name key
      let r := d.route data.logName (warsaw data.date) data.log
      have live {w : OpLogWorker} {files : KeyedMap String LogFile}
          (stored : w.definitions.get? data.logName = some { d with files }) :
          (w.log warsaw data.logName data.date data.log now).file? name key =
            if name = data.logName ∧ key = r.key then
              some ((({ d with lastTimeUse := now } : LogDefinition).getLogFile (w.file? name key)
                r.logName r.path now).addToLog r.entry now)
            else w.file? name key :=
        OpLogWorker.file?_log_stored warsaw now stored name key
      rw [live stored, live stored']
      have grown (path : String) (sound : Sound disk w name key path) :
          Sound disk (w.log warsaw data.logName data.date data.log now) name key path :=
        sound.mono (fun _ _ => id) fun name key f => queued_log warsaw now stored
      by_cases hit : name = data.logName ∧ key = r.key
      · obtain ⟨rfl, rfl⟩ := hit
        rw [if_pos ⟨rfl, rfl⟩, if_pos ⟨rfl, rfl⟩]
        exact (kin_queue (d := { d with lastTimeUse := now }) now (alike.files _ _)).mono grown
      · rw [if_neg hit, if_neg hit]
        exact (alike.files name key).mono grown

theorem alike_logs (alike : Alike disk w w') (logs : List OpLogData) (now : Instant) :
    Alike disk (w.processLogs warsaw now logs).1 (w'.processLogs warsaw now logs).1 := by
  induction logs generalizing w w' with
  | nil => exact alike
  | cons data logs ih => exact ih (alike_log warsaw alike data now)

end Warsaw

/-! ## Clean-up -/

theorem alike_cleanUp (alike : Alike disk w w') (now : Instant) :
    Alike disk (w.cleanUp now) (w'.cleanUpKeeping now) := by
  have lasting' (name : String) (d : LogDefinition) (stored : w'.definitions.get? name = some d) :
      d.autoRemoveDefinition = false := by
    rcases alike_definition alike name with ⟨-, absent'⟩ | ⟨d', files, -, stored', lasts⟩
    · rw [absent'] at stored
      cases stored
    · rw [stored'] at stored
      cases stored
      exact lasts
  have kept (name : String) : (w'.cleanUpKeeping now).definitions.get? name =
      w'.definitions.get? name := OpLogWorker.get?_cleanUpKeeping (lasting' name) now
  constructor
  · intro name
    rw [kept, alike.definitions, OpLogWorker.get?_cleanUp]
    cases stored : w.definitions.get? name with
    | none => rfl
    | some d =>
      have stays : ({ d with files := d.files.retain fun _ f => f.inUse now } : LogDefinition).inUse now =
          true := by
        apply LogDefinition.inUse_of_lasting
        exact alike.lasting name d stored
      rw [Option.map_some, Option.map_some, Option.filter_some, if_pos stays]
      rfl
  · intro name d' there
    rw [OpLogWorker.get?_cleanUp, Option.filter_eq_some_iff, Option.map_eq_some_iff] at there
    obtain ⟨⟨d, stored, rfl⟩, -⟩ := there
    exact alike.lasting name d stored
  · intro name key
    have same : (w'.cleanUpKeeping now).file? name key = w'.file? name key := by
      unfold OpLogWorker.file?
      rw [kept]
    rw [OpLogWorker.file?_cleanUp, same]
    refine (kin_cleanUp (alike.files name key) now).mono fun path sound => sound.mono (fun _ _ => id) ?_
    intro name' key' f live queued
    have used := LogFile.inUse_of_queued queued now
    exact ⟨f, by rw [OpLogWorker.file?_cleanUp, live, Option.filter_some, if_pos used], rfl, queued⟩

/-- On a disk where each file has its old content or none. -/
theorem alike_deletion (alike : Alike disk w w') {disk' : Disk}
    (fewer : ∀ path, ∀ c ∈ disk' path, c ∈ disk path) : Alike disk' w w' where
  definitions := alike.definitions
  lasting := alike.lasting
  files name key := (alike.files name key).mono fun _ sound =>
    sound.mono fewer fun _ _ f live queued => ⟨f, live, rfl, queued⟩

theorem alike_noted (alike : Alike disk w w') (completed : Bool) :
    Alike disk (w.noteCleanupOutcome completed) (w'.noteCleanupOutcome completed) := by
  obtain ⟨timedOut, noted⟩ := w.noteCleanupOutcome_eq completed
  obtain ⟨timedOut', noted'⟩ := w'.noteCleanupOutcome_eq completed
  rw [noted, noted']
  exact ⟨alike.definitions, alike.lasting, alike.files⟩

/-! ## Passes -/

section Warsaw
variable (warsaw : DateTimeUtc → LocalDateTime)

/-- A file that has entries with the worker that forgets none has them with the other. -/
theorem live_of_kept (alike : Alike disk w w') {name key : String} {g : LogFile}
    (kept : w'.file? name key = some g) (queued : g.logs ≠ []) :
    ∃ f, w.file? name key = some f ∧ f.diskPath = g.diskPath ∧ f.logs ≠ [] := by
  have kin := alike.files name key
  rw [kept] at kin
  generalize w.file? name key = live at kin
  cases kin with
  | forgotten idle => exact absurd idle.logs queued
  | @live f flag => exact ⟨f, rfl, rfl, queued⟩

theorem kept_of_live (alike : Alike disk w w') {name key : String} {f : LogFile}
    (live : w.file? name key = some f) :
    ∃ g, w'.file? name key = some g ∧ g.diskPath = f.diskPath := by
  have kin := alike.files name key
  rw [live] at kin
  generalize w'.file? name key = kept at kin
  cases kin with
  | live flag => exact ⟨_, rfl, rfl⟩

variable (interval : LogDefinition → Duration) (env : PassEnv)

theorem step_pass (disk : Disk) {w : OpLogWorker} {name : String} {d : LogDefinition}
    (stored : w.definitions.get? name = some d) (key : String) :
    let out := w.writePass warsaw interval env disk
    (out.1.file? name key, out.2.2.on name key) =
      FileOp.step warsaw (w.file? name key) (.attempt d (interval d) (env.attempt name key)
        (w.contentAt warsaw interval env disk name key)) := by
  intro out
  rw [← OpLogWorker.run_passOps]
  unfold OpLogWorker.passOps
  rw [stored, Machine.run_cons, Machine.run_nil, List.append_nil]

/-- Every tail check that only the one worker makes succeeds. -/
def Checked (w w' : OpLogWorker) (env : PassEnv) : Prop :=
  ∀ name key, OneChecks (w.file? name key) (w'.file? name key) → Checks (env.attempt name key).io.tail

/-- A file with entries in a pass of either worker. -/
theorem pass_queued (alike : Alike disk w w') (unshared : w.Unshared)
    (plain : ∀ d files, interval { d with files } = interval d) (checked : Checked w w' env)
    {name key : String} {f : LogFile} (live : w.file? name key = some f) (queued : f.logs ≠ []) :
    let out := w.writePass warsaw interval env disk
    let out' := w'.writePass warsaw interval env disk
    out'.2.2.on name key = out.2.2.on name key ∧ out'.2.1 f.diskPath = out.2.1 f.diskPath ∧
      Kin (Sound out.2.1 out.1 name key) name key (out.1.file? name key) (out'.1.file? name key) ∧
      ((∀ f', out.1.file? name key = some f' → f'.logs = []) →
        ∀ c ∈ out.2.1 f.diskPath, Settled c) ∧
      (interval = (fun _ => Duration.fromMillis 0) →
        ¬ OneChecks (out.1.file? name key) (out'.1.file? name key)) := by
  intro out out'
  have alone := unshared name key f live queued
  have alone' : w'.OnlyAt f.diskPath name key := by
    intro name' key' g' kept' same queued'
    obtain ⟨f', live', place, queued⟩ := live_of_kept alike kept' queued'
    exact alone name' key' f' live' (place.trans same) queued
  obtain ⟨g, kept, place⟩ := kept_of_live alike live
  have at_live := w.writePass_at warsaw interval env disk alone live rfl
  have at_kept := w'.writePass_at warsaw interval env disk alone' kept place
  rcases alike_definition alike name with ⟨absent, -⟩ | ⟨d, files, stored, stored', -⟩
  · rw [OpLogWorker.file?_of_none key absent] at live
    cases live
  · have found := (w.writePass_slot warsaw interval env disk stored live alone).1
    rw [← place] at alone'
    have found' := (w'.writePass_slot warsaw interval env disk stored' kept alone').1
    have settled (sound : Sound disk w name key f.diskPath) : ∀ c ∈ disk f.diskPath, Settled c := by
      rcases sound with settled | ⟨name', key', f', other, live', same, queued'⟩
      · exact settled
      · exact absurd (alone name' key' f' live' same queued') other
    have kin := alike.files name key
    have checks := checked name key
    rw [live] at kin checks
    have attempt := kin_attempt warsaw kin (Sound out.2.1 out.1 name key) d files (interval d)
      (env.attempt name key) (disk f.diskPath) queued settled checks
    have step := step_pass warsaw interval env disk stored key
    have step' := step_pass warsaw interval env disk stored' key
    rw [live, found] at step
    rw [found', place, plain] at step'
    dsimp only at attempt
    rw [← step, ← step'] at attempt
    obtain ⟨attempts, related, drained, agree⟩ := attempt
    have disks : out.2.1 f.diskPath = applyOps ((out.2.2.on name key).flatMap Attempt.ops)
      (disk f.diskPath) := at_live
    have disks' : out'.2.1 f.diskPath = applyOps ((out'.2.2.on name key).flatMap Attempt.ops)
      (disk f.diskPath) := at_kept
    refine ⟨attempts, ?_, related fun settled => Or.inl ?_, ?_, fun zero => agree ?_⟩
    · rw [disks, disks', show out'.2.2.on name key = _ from attempts]
    · rw [disks]
      exact settled
    · rw [disks]
      exact drained
    · rw [zero]

/-- A file without entries in a pass of either worker. -/
theorem pass_idle (alike : Alike disk w w') {name key : String}
    (empty : ∀ f, w.file? name key = some f → f.logs = []) :
    let out := w.writePass warsaw interval env disk
    let out' := w'.writePass warsaw interval env disk
    out.1.file? name key = w.file? name key ∧ out'.1.file? name key = w'.file? name key ∧
      (out.2.2.on name key).filterMap Attempt.report = [] ∧
      (out'.2.2.on name key).filterMap Attempt.report = [] := by
  intro out out'
  rcases alike_definition alike name with ⟨absent, absent'⟩ | ⟨d, files, stored, stored', -⟩
  · have silent := w.file?_writePass warsaw interval env disk name key
    have silent' := w'.file?_writePass warsaw interval env disk name key
    rw [OpLogWorker.file?_of_none key absent] at silent ⊢
    rw [OpLogWorker.file?_of_none key absent'] at silent' ⊢
    obtain ⟨file, attempts⟩ := silent
    obtain ⟨file', attempts'⟩ := silent'
    rw [attempts, attempts']
    exact ⟨file, file', rfl, rfl⟩
  · obtain ⟨idle, idle'⟩ := (alike.files name key).idle empty
    have same := step_idle warsaw idle d (interval d) (env.attempt name key)
      (w.contentAt warsaw interval env disk name key)
    have same' := step_idle warsaw idle' { d with files } (interval { d with files })
      (env.attempt name key) (w'.contentAt warsaw interval env disk name key)
    dsimp only at same same'
    rw [← step_pass warsaw interval env disk stored key] at same
    rw [← step_pass warsaw interval env disk stored' key] at same'
    exact ⟨same.1, same'.1, same.2, same'.2⟩

/-- A path without entries keeps its content with either worker. -/
theorem pass_frame (alike : Alike disk w w') {path : String}
    (empty : ∀ name key f, w.file? name key = some f → f.diskPath = path → f.logs = []) :
    (w.writePass warsaw interval env disk).2.1 path = disk path ∧
      (w'.writePass warsaw interval env disk).2.1 path = disk path := by
  refine ⟨w.writePass_frame warsaw interval env disk empty,
    w'.writePass_frame warsaw interval env disk ?_⟩
  intro name key g kept place
  by_contra queued
  obtain ⟨f, live, same, queued'⟩ := live_of_kept alike kept queued
  exact queued' (empty name key f live (same.trans place))

/-- What a pass makes of the file under one key: the same reports, and files that are kin. -/
theorem kin_pass (alike : Alike disk w w') (unshared : w.Unshared)
    (plain : ∀ d files, interval { d with files } = interval d) (checked : Checked w w' env)
    (name key : String) :
    let out := w.writePass warsaw interval env disk
    let out' := w'.writePass warsaw interval env disk
    (out'.2.2.on name key).filterMap Attempt.report =
        (out.2.2.on name key).filterMap Attempt.report ∧
      Kin (Sound out.2.1 out.1 name key) name key (out.1.file? name key) (out'.1.file? name key) ∧
      (interval = (fun _ => Duration.fromMillis 0) →
        ¬ OneChecks (out.1.file? name key) (out'.1.file? name key)) := by
  intro out out'
  by_cases queued : ∃ f, w.file? name key = some f ∧ f.logs ≠ []
  · obtain ⟨f, live, queued⟩ := queued
    obtain ⟨attempts, -, kin, -, agree⟩ :=
      pass_queued warsaw interval env alike unshared plain checked live queued
    exact ⟨by rw [show out'.2.2.on name key = _ from attempts], kin, agree⟩
  · have empty (f : LogFile) (live : w.file? name key = some f) : f.logs = [] := by
      by_contra left
      exact queued ⟨f, live, left⟩
    obtain ⟨file, file', reports, reports'⟩ := pass_idle warsaw interval env alike empty
    rw [show out.1.file? name key = _ from file, show out'.1.file? name key = _ from file',
      show (out.2.2.on name key).filterMap Attempt.report = _ from reports,
      show (out'.2.2.on name key).filterMap Attempt.report = _ from reports']
    refine ⟨rfl, (alike.files name key).mono fun path sound => ?_, ?_⟩
    · rcases w.queued_at path with ⟨name', key', f, live, rfl, some_before⟩ | unqueued
      · obtain ⟨-, -, -, drained, -⟩ :=
          pass_queued warsaw interval env alike unshared plain checked live some_before
        by_cases left : ∃ f', out.1.file? name' key' = some f' ∧ f'.logs ≠ []
        · obtain ⟨f', live', some_left⟩ := left
          obtain ⟨f₀, before, place, -⟩ := w.file?_before_writePass warsaw interval env disk live'
          rw [live, Option.some.injEq] at before
          subst before
          refine Or.inr ⟨name', key', f', ?_, live', place, some_left⟩
          rintro ⟨rfl, rfl⟩
          exact some_before (empty f live)
        · apply Or.inl
          apply drained
          intro f' live'
          by_contra some_left
          exact left ⟨f', live', some_left⟩
      · have unwritten := (pass_frame warsaw interval env alike unqueued).1
        rcases sound with settled | ⟨name', key', f, -, live, place, some_before⟩
        · apply Or.inl
          rw [show out.2.1 path = _ from unwritten]
          exact settled
        · exact absurd (unqueued name' key' f live place) some_before
    · rintro - ⟨f, -, live, -, some_before, -⟩
      exact some_before (empty f live)

/-- A pass of either worker: the same disk, and workers alike. -/
theorem alike_pass (alike : Alike disk w w') (unshared : w.Unshared)
    (plain : ∀ d files, interval { d with files } = interval d) (checked : Checked w w' env) :
    let out := w.writePass warsaw interval env disk
    let out' := w'.writePass warsaw interval env disk
    out'.2.1 = out.2.1 ∧ Alike out.2.1 out.1 out'.1 := by
  intro out out'
  refine ⟨?_, ?_, ?_, fun name key =>
    (kin_pass warsaw interval env alike unshared plain checked name key).2.1⟩
  · funext path
    rcases w.queued_at path with ⟨name, key, f, live, rfl, queued⟩ | unqueued
    · exact (pass_queued warsaw interval env alike unshared plain checked live queued).2.1
    · obtain ⟨same, same'⟩ := pass_frame warsaw interval env alike unqueued
      exact same'.trans same.symm
  · intro name
    have after := w.get?_writePass warsaw interval env disk name
    have after' := w'.get?_writePass warsaw interval env disk name
    rcases alike_definition alike name with ⟨absent, absent'⟩ | ⟨d, files, stored, stored', -⟩
    · rw [absent] at after
      rw [absent'] at after'
      rw [show out.1.definitions.get? name = none from after,
        show out'.1.definitions.get? name = none from after']
    · rw [stored] at after
      rw [stored'] at after'
      obtain ⟨_, after⟩ := after
      obtain ⟨_, after'⟩ := after'
      rw [show out.1.definitions.get? name = _ from after,
        show out'.1.definitions.get? name = _ from after']
      rfl
  · intro name d there
    have after := w.get?_writePass warsaw interval env disk name
    cases stored : w.definitions.get? name with
    | none =>
      rw [stored] at after
      rw [show out.1.definitions.get? name = none from after] at there
      cases there
    | some d' =>
      rw [stored] at after
      obtain ⟨_, after⟩ := after
      rw [show out.1.definitions.get? name = _ from after] at there
      cases there
      exact alike.lasting name d' stored

theorem alike_logCount (alike : Alike disk w w') : w'.logCount = 0 ↔ w.logCount = 0 := by
  rw [OpLogWorker.logCount_eq_zero, OpLogWorker.logCount_eq_zero]
  constructor
  · intro empty name key f live
    have kin := alike.files name key
    rw [live] at kin
    generalize kept : w'.file? name key = stored at kin
    cases kin with
    | @live f flag => exact empty name key { f with tailVerified := flag } kept
  · intro empty name key g kept
    have kin := alike.files name key
    rw [kept] at kin
    generalize live : w.file? name key = stored at kin
    cases kin with
    | forgotten idle => exact idle.logs
    | @live f flag =>
      have queue : f.logs = [] := empty name key f live
      exact queue

theorem reportsOn_append (name key : String) (past out : List Output) :
    reportsOn name key (past ++ out) = reportsOn name key past ++ reportsOn name key out := by
  unfold reportsOn
  rw [attemptsOn_append, List.filterMap_append]

theorem reportsOn_pass (name key : String) (attempts : PassAttempts) :
    reportsOn name key [.pass attempts] = (attempts.on name key).filterMap Attempt.report := by
  unfold reportsOn attemptsOn
  rw [List.flatMap_cons, List.flatMap_nil, List.append_nil]

/-- A flush of either worker. Behind its first pass the two make the same tail checks. -/
theorem alike_flushLoop (passes : Nat → PassEnv) (left n : Nat) (alike : Alike disk w w')
    (unshared : w.Unshared) (checked : Checked w w' (passes n)) :
    let out := OpLogWorker.flushLoop warsaw passes left n w disk
    let out' := OpLogWorker.flushLoop warsaw passes left n w' disk
    out'.2.1 = out.2.1 ∧ Alike out.2.1 out.1 out'.1 ∧ ∀ name key,
      reportsOn name key (out'.2.2.map .pass) = reportsOn name key (out.2.2.map .pass) := by
  induction left generalizing n w w' disk with
  | zero =>
    obtain ⟨same, after⟩ := alike_pass warsaw (fun _ => Duration.fromMillis 0) (passes n) alike unshared
      (fun _ _ => rfl) checked
    refine ⟨same, after, fun name key => ?_⟩
    have each := kin_pass warsaw (fun _ => Duration.fromMillis 0) (passes n) alike unshared
      (fun _ _ => rfl) checked name key
    unfold OpLogWorker.flushLoop
    rw [List.map_cons, List.map_cons, List.map_nil, reportsOn_pass, reportsOn_pass]
    exact each.1
  | succ left ih =>
    obtain ⟨same, after⟩ := alike_pass warsaw (fun _ => Duration.fromMillis 0) (passes n) alike unshared
      (fun _ _ => rfl) checked
    have each := kin_pass warsaw (fun _ => Duration.fromMillis 0) (passes n) alike unshared
      (fun _ _ => rfl) checked
    have still := unshared.writePass warsaw (fun _ => Duration.fromMillis 0) (passes n) disk
    unfold OpLogWorker.flushLoop
    dsimp only at same after each ⊢
    generalize w.writePass warsaw (fun _ => Duration.fromMillis 0) (passes n) disk = out at *
    generalize w'.writePass warsaw (fun _ => Duration.fromMillis 0) (passes n) disk = out' at *
    obtain ⟨w, disk, attempts⟩ := out
    obtain ⟨w', _, attempts'⟩ := out'
    subst same
    have first (name key : String) : reportsOn name key [.pass attempts'] =
        reportsOn name key [.pass attempts] := by
      rw [reportsOn_pass, reportsOn_pass]
      exact (each name key).1
    by_cases drained : w.logCount = 0
    · rw [if_pos drained, if_pos ((alike_logCount after).mpr drained)]
      exact ⟨rfl, after, first⟩
    · rw [if_neg drained, if_neg fun drained' => drained ((alike_logCount after).mp drained')]
      obtain ⟨same, alike, reports⟩ := ih (n + 1) after still fun name key one =>
        absurd one ((each name key).2.2 rfl)
      refine ⟨same, alike, fun name key => ?_⟩
      have split (attempts : PassAttempts) (rest : List PassAttempts) :
          reportsOn name key ((attempts :: rest).map .pass) =
            reportsOn name key [.pass attempts] ++ reportsOn name key (rest.map .pass) := by
        rw [List.map_cons, ← reportsOn_append]
        rfl
      rw [split, split, first, reports]

end Warsaw
end Alike
end OpLog.Guarantees.TwoWorkers
