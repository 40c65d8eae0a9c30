import OpLog.Guarantees.Convergence
import OpLog.Guarantees.Rules
import OpLog.Guarantees.TwoWorkers
import OpLog.Library.Response
import OpLog.Source.Volume

/-!
# What makes a file disappear

The worker writes and cleans up the same tree. Over a whole run a file disappears only at a
cleanup tick, and there only under a rule that was sent to the worker, that has the file below
its directory, and whose days have gone by since the worker last changed the file. Where the
calls of the cleanup succeed it disappears at the first tick that finds it so.
-/
namespace OpLog.Guarantees.Expiry
open Library Source Retention Convergence

/-! ## Days -/

def plusDays (time : SystemTime) (days : Nat) : SystemTime := time + days * (24 * 60 * 60 * 1000000000)

/-- The time a file's age is counted from. -/
def dated (times : FileTimes) : Option SystemTime :=
  match times.modified, times.created with
  | .ok time, _ => some time
  | .error _, .ok time => some time
  | .error _, .error _ => none

/-- A file is this old when the days have gone by; a file without times never is. -/
theorem le_ageInDays {days : Nat} (active : 0 < days) (times : FileTimes) (now : SystemTime) :
    days ≤ ageInDays times now ↔ ∃ time, dated times = some time ∧ plusDays time days ≤ now := by
  have elapsed (now time : Int) : days ≤ ((now - time) / (24 * 60 * 60 * 1000000000)).toNat ↔
      time + days * (24 * 60 * 60 * 1000000000) ≤ now := by omega
  unfold ageInDays dated plusDays
  cases times.modified with
  | ok time => simpa using elapsed now time
  | error _ =>
    cases times.created with
    | ok time => simpa using elapsed now time
    | error _ => simp [Nat.ne_of_gt active]

/-! ## Files that are listed -/

theorem lists_iff (t : Listing) (path : List String) :
    t.lists path = true ↔ ∃ times, HasFile t path times := by
  induction t generalizing path with
  | nil => simp [Listing.lists, HasFile]
  | file name own rest ih =>
    simp only [Listing.lists, HasFile, Bool.or_eq_true, decide_eq_true_eq, ih]
    constructor
    · intro listed
      rcases listed with here | ⟨times, later⟩
      · exact ⟨own, Or.inl ⟨here, rfl⟩⟩
      · exact ⟨times, Or.inr later⟩
    · intro stands
      rcases stands with ⟨times, ⟨here, -⟩ | later⟩
      · exact Or.inl here
      · exact Or.inr ⟨times, later⟩
  | dir name entries rest ihEntries ihRest =>
    cases path with
    | nil => simp [Listing.lists, HasFile, ihRest]
    | cons first below =>
      simp only [Listing.lists, HasFile, Bool.or_eq_true, Bool.and_eq_true, decide_eq_true_eq,
        ihEntries, ihRest, List.cons.injEq]
      constructor
      · intro listed
        rcases listed with ⟨rfl, times, there⟩ | ⟨times, later⟩
        · exact ⟨times, Or.inl ⟨below, ⟨rfl, rfl⟩, there⟩⟩
        · exact ⟨times, Or.inr later⟩
      · intro stands
        rcases stands with ⟨times, ⟨_, ⟨rfl, rfl⟩, there⟩ | later⟩
        · exact Or.inl ⟨rfl, times, there⟩
        · exact Or.inr ⟨times, later⟩
  | other name rest ih => simpa only [Listing.lists, HasFile] using ih path

/-! ## Steps that delete nothing -/

/-- No operation on a file makes it disappear. -/
theorem applyOps_stays (ops : List DiskOp) (content : Option Bytes) (there : content ≠ none) :
    applyOps ops content ≠ none := by
  induction ops generalizing content with
  | nil => exact there
  | cons op ops ih =>
    rw [applyOps_cons]
    apply ih
    cases op <;> simp [DiskOp.apply, there]

section Worker
variable (warsaw : DateTimeUtc → LocalDateTime) {path : String}

theorem set_stays {disk : Disk} (there : disk path ≠ none) (written : String) {content : Option Bytes}
    (some_left : disk written ≠ none → content ≠ none) : disk.set written content path ≠ none := by
  unfold Disk.set
  split
  · rename_i same
    subst same
    exact some_left there
  · exact there

theorem writeToFile_stays (d : LogDefinition) (flushInterval : Duration) (env : String → AttemptEnv)
    (rank : String → Nat) (disk : Disk) (there : disk path ≠ none) :
    (d.writeToFile warsaw flushInterval env rank disk).2.1 path ≠ none := by
  refine (KeyedMap.accumEntries_invariant _ (fun disk : Disk => disk path ≠ none) _ ?_ disk there).1
  intro key f disk _ there
  exact set_stays there f.diskPath (applyOps_stays _ (disk f.diskPath))

theorem writePass_stays (w : OpLogWorker) (interval : LogDefinition → Duration) (env : PassEnv)
    (disk : Disk) (there : disk path ≠ none) :
    (w.writePass warsaw interval env disk).2.1 path ≠ none :=
  (KeyedMap.accumEntries_invariant _ (fun disk : Disk => disk path ≠ none) _
    (fun name d disk _ there => writeToFile_stays warsaw d (interval d) (env.attempt name)
      (env.fileRank name) disk there) disk there).1

theorem flush_stays (env : Nat → PassEnv) (left n : Nat) (w : OpLogWorker) (disk : Disk)
    (there : disk path ≠ none) :
    (OpLogWorker.flushLoop warsaw env left n w disk).2.1 path ≠ none := by
  induction left generalizing n w disk with
  | zero => exact writePass_stays warsaw w _ (env n) disk there
  | succ left ih =>
    have pass := writePass_stays warsaw w (fun _ => Duration.fromMillis 0) (env n) disk there
    unfold OpLogWorker.flushLoop
    dsimp only
    split
    · exact pass
    · exact ih _ _ _ pass

/-- Only a cleanup tick deletes. -/
theorem step_stays (s : World) (e : Event) (there : s.disk path ≠ none)
    (spared : ∀ now deleted completed, e = .cleanupTick now deleted completed → deleted path = false) :
    (s.step warsaw e).1.disk path ≠ none := by
  cases e with
  | writerTick env => exact writePass_stays warsaw s.worker _ env s.disk there
  | cleanupTick now deleted completed =>
    have same : (s.step warsaw (.cleanupTick now deleted completed)).1.disk path = s.disk path := by
      unfold World.step World.cleanup
      simp only [spared now deleted completed rfl, Bool.false_eq_true, if_false]
    rwa [same]
  | message env msg =>
    cases msg with
    | flush => exact flush_stays warsaw env.flush.pass env.flush.deadline 0 s.worker s.disk there
    | getInfoAndFlush =>
      exact flush_stays warsaw env.flush.pass env.flush.deadline 0 s.worker s.disk there
    | _ => exact there

end Worker

/-! ## Cleanup ticks -/

section Volumes
variable (resolve : String → List String) (path : String)

/-- The days of a rule that governs the file have gone by since its last change. -/
def Due (v : Volume) (now : SystemTime) : Prop :=
  ∃ d, Governs resolve v.world.worker.cleanUpDefinitions d (resolve path) ∧
    plusDays (v.modified path) d.deleteAfterDays ≤ now

/-- What the volume reports at a cleanup tick: no name twice in a directory, and no time of the file
that is earlier than its last change. No call reads a clock later than the tick's `now`. -/
def Reported (v : Volume) : VolumeEvent → Prop
  | .cleanupTick now _ tree pass => Distinct tree ∧ (∀ n at_path, (pass.io n).now at_path ≤ now) ∧
      ∀ times time, HasFile tree (resolve path) times → dated times = some time → v.modified path ≤ time
  | _ => True

/-- The file is not due at this step. -/
def NotDue (v : Volume) : VolumeEvent → Prop
  | .cleanupTick now _ _ _ => ¬ Due resolve path v now
  | _ => True

variable {resolve path}

theorem plusDays_le {earlier later now : SystemTime} {days : Nat} (before : earlier ≤ later)
    (past : plusDays later days ≤ now) : plusDays earlier days ≤ now :=
  Int.le_trans (Int.add_le_add_right before _) past

/-- A pass deletes nothing that is not due, whatever of it fails. -/
theorem due_of_deleted (v : Volume) {now : SystemTime} {instant : Instant} {tree : Listing}
    {pass : FailingPass} (reported : Reported resolve path v (.cleanupTick now instant tree pass))
    (deleted : deletedFrom resolve tree
      (cleanUpTree resolve v.world.worker.cleanUpDefinitions tree pass).1 path = true) :
    Due resolve path v now := by
  obtain ⟨distinct, earlier, unchanged⟩ := reported
  unfold deletedFrom at deleted
  rw [Bool.and_eq_true, Bool.not_eq_true', ← Bool.not_eq_true, lists_iff, lists_iff] at deleted
  obtain ⟨⟨times, there⟩, gone⟩ := deleted
  have trims := (failing_trims resolve now pass earlier v.world.worker.cleanUpDefinitions
    (fun _ listed => listed) 0 distinct pass.steps).1
  have condemned : ¬ Spared resolve now v.world.worker.cleanUpDefinitions (resolve path)
      (.file times) := by
    intro spared
    have stays := trims.spares (file_in_core.mpr ⟨hasFile_iff.mp there, spared⟩)
    exact gone ⟨times, hasFile_iff.mpr stays⟩
  unfold Spared at condemned
  push Not at condemned
  obtain ⟨d, governs, old⟩ := condemned
  obtain ⟨time, when_dated, past⟩ := (le_ageInDays governs.2.1 times now).mp old
  exact ⟨d, governs, plusDays_le (unchanged times time there when_dated) past⟩

/-- Where it is not due a file stays. -/
theorem step_keeps (warsaw : DateTimeUtc → LocalDateTime) (v : Volume) (e : VolumeEvent)
    (reported : Reported resolve path v e) (there : v.world.disk path ≠ none)
    (young : NotDue resolve path v e) : (v.step warsaw resolve e).1.world.disk path ≠ none := by
  refine step_stays warsaw v.world (v.event resolve e) there ?_
  intro instant deleted completed same
  cases e with
  | writerTick now env => cases same
  | message now env msg => cases same
  | cleanupTick now instant' tree pass =>
    cases same
    rw [← Bool.not_eq_true]
    exact fun gone => young (due_of_deleted v reported gone)

/-! ## Where the rules come from -/

/-- The message brings the rule. -/
def Brings (d : OpLogCleanUpDefinition) : VolumeEvent → Prop
  | .message _ _ (.cleanUpDefinition d') => d' = d
  | .message _ _ (.cleanUpBundle bundle) => d ∈ bundle
  | _ => False

theorem mem_updateRule {d rule : OpLogCleanUpDefinition} {rules : List OpLogCleanUpDefinition}
    (member : rule ∈ OpLogWorker.updateRule d rules) : d = rule ∨ rule ∈ rules := by
  induction rules with
  | nil => exact Or.inl (List.mem_singleton.mp member).symm
  | cons a rules ih =>
    unfold OpLogWorker.updateRule at member
    split at member
    · rename_i same
      rcases List.mem_cons.mp member with rfl | later
      · exact Or.inl (by rw [same])
      · exact Or.inr (List.mem_cons_of_mem _ later)
    · rcases List.mem_cons.mp member with rfl | later
      · exact Or.inr List.mem_cons_self
      · exact (ih later).imp_right (List.mem_cons_of_mem _)

section Warsaw
variable (warsaw : DateTimeUtc → LocalDateTime)

/-- The rules in force behind a step were in force ahead of it, or the step brings them. -/
theorem rules_of_step (v : Volume) (e : VolumeEvent) {d : OpLogCleanUpDefinition}
    (in_force : d ∈ (v.step warsaw resolve e).1.world.worker.cleanUpDefinitions) :
    d ∈ v.world.worker.cleanUpDefinitions ∨ Brings d e := by
  have after := Rules.rules_step warsaw v.world (v.event resolve e)
  have known : d ∈ Rules.rulesAfter v.world.worker.cleanUpDefinitions (v.event resolve e) := by
    rw [← after]
    exact in_force
  cases e with
  | writerTick now env => exact Or.inl known
  | cleanupTick now instant tree pass => exact Or.inl known
  | message now env msg =>
    cases msg with
    | cleanUpRemoveAllDefinitions => cases known
    | cleanUpBundle bundle => exact Or.inr known
    | cleanUpDefinition d' => exact (mem_updateRule known).symm
    | _ => exact Or.inl known

theorem rules_of_run (v : Volume) (es : List VolumeEvent) {d : OpLogCleanUpDefinition}
    (in_force : d ∈ (Machine.run (Volume.step warsaw resolve) v es).1.world.worker.cleanUpDefinitions) :
    d ∈ v.world.worker.cleanUpDefinitions ∨ ∃ e ∈ es, Brings d e := by
  induction es generalizing v with
  | nil => exact Or.inl in_force
  | cons e es ih =>
    rcases ih _ in_force with before | ⟨e', later, brings⟩
    · exact (rules_of_step warsaw v e before).imp_right fun brings => ⟨e, List.mem_cons_self, brings⟩
    · exact Or.inr ⟨e', List.mem_cons_of_mem e later, brings⟩

/-! ## Runs -/

variable (resolve path) in
/-- A file that was there and is gone has been deleted at a cleanup tick in between, under a rule in
force there that some message had brought, that governs the file, and whose days had gone by since
the last step that changed the file. Failing calls, interrupted passes and all that the worker
writes make no difference. -/
theorem only_an_expired_rule_deletes (disk : Disk) (modified : String → SystemTime)
    (first second : List VolumeEvent)
    (reported : Machine.Allowed (Volume.step warsaw resolve) (Reported resolve path)
      ⟨⟨.new, disk⟩, modified⟩ (first ++ second))
    (there : (Machine.run (Volume.step warsaw resolve) ⟨⟨.new, disk⟩, modified⟩ first).1.world.disk
      path ≠ none)
    (gone : (Machine.run (Volume.step warsaw resolve) ⟨⟨.new, disk⟩, modified⟩
      (first ++ second)).1.world.disk path = none) :
    ∃ before now instant tree pass after d,
      second = before ++ .cleanupTick now instant tree pass :: after ∧
      (∃ e ∈ first ++ before, Brings d e) ∧
      let v := (Machine.run (Volume.step warsaw resolve) ⟨⟨.new, disk⟩, modified⟩ (first ++ before)).1
      Governs resolve v.world.worker.cleanUpDefinitions d (resolve path) ∧
        plusDays (v.modified path) d.deleteAfterDays ≤ now := by
  obtain ⟨-, reported⟩ := (Machine.allowed_append _ _ _).mp reported
  have lost : ¬ (Machine.run (Volume.step warsaw resolve)
      (Machine.run (Volume.step warsaw resolve) ⟨⟨.new, disk⟩, modified⟩ first).1 second).1.world.disk
        path ≠ none := by
    rw [not_not]
    rwa [Machine.run_append] at gone
  obtain ⟨before, e, after, rfl, still, here⟩ :=
    Machine.run_leaves (fun v : Volume => fun _ => v.world.disk path ≠ none) _ [] there second lost
  obtain ⟨-, now_reported, -⟩ := (Machine.allowed_append _ _ _).mp reported
  have due : ¬ NotDue resolve path _ e := fun young =>
    here (step_keeps warsaw _ e now_reported still young)
  cases e with
  | writerTick now env => exact absurd trivial due
  | message now env msg => exact absurd trivial due
  | cleanupTick now instant tree pass =>
    obtain ⟨d, governs, past⟩ := not_not.mp due
    refine ⟨before, now, instant, tree, pass, after, d, rfl, ?_, ?_⟩
    · rcases rules_of_run warsaw _ before governs.1 with early | ⟨e, member, brings⟩
      · rcases rules_of_run warsaw _ first early with none_yet | ⟨e, member, brings⟩
        · cases none_yet
        · exact ⟨e, List.mem_append_left _ member, brings⟩
      · exact ⟨e, List.mem_append_right _ member, brings⟩
    · rw [Machine.run_append]
      exact ⟨governs, past⟩

end Warsaw
end Volumes

/-- Where the paths below are in the tree. -/
def parts (path : String) : List String := if path = "logs" then ["logs"] else ["logs", "app.log"]

def logsTree : Listing := .dir "logs" (.file "app.log" ⟨.ok 0, .ok 0⟩ .nil) .nil

theorem logsTree_file {times : FileTimes} (there : HasFile logsTree (parts "logs/app.log") times) :
    times = ⟨.ok 0, .ok 0⟩ := by
  simpa [HasFile, logsTree, parts] using there

theorem reported_logsTree {v : Volume} (unchanged : v.modified "logs/app.log" ≤ 0) (now : SystemTime)
    (instant : Instant) : Reported parts "logs/app.log" v
      (.cleanupTick now instant logsTree ⟨10, fun _ _ _ => 0, fun _ => .undisturbed now⟩) := by
  refine ⟨by simp [logsTree, Distinct, names], fun _ _ => Int.le_refl _, ?_⟩
  intro times time there when_dated
  rw [logsTree_file there] at when_dated
  cases when_dated
  exact unchanged

/-- What a message finds while every call succeeds. -/
def calm : MessageEnv := ⟨0, ⟨fun _ => TwoWorkers.answers fun _ => allDone, 0⟩⟩

/-- An entry for `app`, and the writer tick behind it. -/
def entryWritten (now : SystemTime) (text : String) : List VolumeEvent :=
  [.message now calm (.logBundle ⟨[⟨"app", .noSplit, "", "logs", [], 0, false⟩], [⟨"app", text, 0⟩]⟩),
    .writerTick now (TwoWorkers.answers fun _ => allDone)]

/-- A rule of thirty days for files written at zero, and a cleanup tick after so many days. -/
def cleanedAfter (days : Nat) : List VolumeEvent :=
  [.message 0 calm (.cleanUpDefinition ⟨"logs", 30⟩),
    .cleanupTick (plusDays 0 days) 0 logsTree
      ⟨10, fun _ _ _ => 0, fun _ => .undisturbed (plusDays 0 days)⟩]

theorem only_an_expired_rule_deletes_one :
    ∃ before now instant tree pass after d,
      cleanedAfter 30 = before ++ .cleanupTick now instant tree pass :: after ∧
      (∃ e ∈ entryWritten 0 "one" ++ before, Brings d e) ∧
      let v := (Machine.run (Volume.step warsawAtEpoch parts) ⟨⟨.new, fun _ => none⟩, fun _ => 0⟩
        (entryWritten 0 "one" ++ before)).1
      Governs parts v.world.worker.cleanUpDefinitions d (parts "logs/app.log") ∧
        plusDays (v.modified "logs/app.log") d.deleteAfterDays ≤ now := by
  exact only_an_expired_rule_deletes parts "logs/app.log" warsawAtEpoch (fun _ => none) (fun _ => 0)
    (entryWritten 0 "one") (cleanedAfter 30)
    ⟨trivial, trivial, trivial, reported_logsTree (by decide +kernel) _ _, trivial⟩
    (by decide +kernel) (by decide +kernel)

/-! ## Passes that succeed -/

section Whole
variable (resolve : String → List String) (path : String)

/-- The volume lists the file with the time of its last change, every call of the pass succeeds at
one reading of the clock, and the pass is not cut off. -/
def Whole (v : Volume) : VolumeEvent → Prop
  | .cleanupTick now _ tree pass => Distinct tree ∧ (∀ n, pass.io n = .undisturbed now) ∧
      (cleanUpTree resolve v.world.worker.cleanUpDefinitions tree pass).2 = true ∧
      (v.world.disk path ≠ none → tree.lists (resolve path) = true) ∧
      ∀ times, HasFile tree (resolve path) times → dated times = some (v.modified path)
  | _ => True

variable {resolve path}

theorem reported_of_whole {v : Volume} {e : VolumeEvent} (whole : Whole resolve path v e) :
    Reported resolve path v e := by
  cases e with
  | writerTick now env => trivial
  | message now env msg => trivial
  | cleanupTick now instant tree pass =>
    obtain ⟨distinct, undisturbed, -, -, exact⟩ := whole
    refine ⟨distinct, ?_, ?_⟩
    · intro n at_path
      rw [undisturbed n]
      exact Int.le_refl now
    · intro times time there when_dated
      rw [exact times there] at when_dated
      cases when_dated
      exact Int.le_refl _

theorem condemned_of_due {v : Volume} {now : SystemTime} {times : FileTimes}
    (when_dated : dated times = some (v.modified path)) (due : Due resolve path v now) :
    Condemned resolve now v.world.worker.cleanUpDefinitions (resolve path) times := by
  obtain ⟨d, ⟨listed, active, below, some_name, same⟩, past⟩ := due
  refine ⟨d, listed, active, below, some_name, same, ?_⟩
  unfold Old
  rw [isOlderThan_iff, le_ageInDays active]
  exact ⟨_, when_dated, past⟩

/-- A whole pass deletes the file once it is due. -/
theorem deleted_of_due {v : Volume} {now : SystemTime} {instant : Instant} {tree : Listing}
    {pass : FailingPass} (whole : Whole resolve path v (.cleanupTick now instant tree pass))
    (there : v.world.disk path ≠ none) (due : Due resolve path v now) :
    deletedFrom resolve tree (cleanUpTree resolve v.world.worker.cleanUpDefinitions tree pass).1 path =
      true := by
  obtain ⟨distinct, undisturbed, completed, listed, exact⟩ := whole
  obtain ⟨steps, rank, io⟩ := pass
  obtain rfl : io = fun _ => .undisturbed now := funext undisturbed
  have same := cleanUpDeleteFiles_undisturbed resolve now ⟨steps, rank⟩
    v.world.worker.cleanUpDefinitions 0 tree steps
  unfold cleanUpTree at completed ⊢
  dsimp only at same completed ⊢
  rw [same] at completed ⊢
  obtain ⟨left, done⟩ := Option.isSome_iff_exists.mp completed
  have cleared := pass_cleared resolve now rank v.world.worker.cleanUpDefinitions 0 steps distinct done
  have pruned := pass_pruned resolve now rank v.world.worker.cleanUpDefinitions 0 steps tree
  unfold deletedFrom
  rw [Bool.and_eq_true, Bool.not_eq_true', ← Bool.not_eq_true, lists_iff, lists_iff]
  refine ⟨(lists_iff _ _).mp (listed there), ?_⟩
  intro left
  obtain ⟨times, has⟩ := left
  have before := pruned.old _ times has
  exact cleared _ times has (condemned_of_due (exact times before) due)

/-- A step behind which the file is still there is one at which it is not due. -/
theorem step_keeps_iff (warsaw : DateTimeUtc → LocalDateTime) (v : Volume) (e : VolumeEvent)
    (whole : Whole resolve path v e) (there : v.world.disk path ≠ none) :
    (v.step warsaw resolve e).1.world.disk path ≠ none ↔ NotDue resolve path v e := by
  refine ⟨fun still => ?_, step_keeps warsaw v e (reported_of_whole whole) there⟩
  cases e with
  | writerTick now env => trivial
  | message now env msg => trivial
  | cleanupTick now instant tree pass =>
    intro due
    apply still
    exact if_pos (deleted_of_due whole there due)

variable (resolve path) in
/-- Where the cleanup's passes succeed a file is there, from any state on, for as long as it is
never found due: the days of every governing rule then in force count from the last step that
changed it, whatever the worker writes, is sent, queues or forgets in between. -/
theorem kept_iff_never_due (warsaw : DateTimeUtc → LocalDateTime) (v : Volume)
    (es : List VolumeEvent) (there : v.world.disk path ≠ none)
    (whole : Machine.Allowed (Volume.step warsaw resolve) (Whole resolve path) v es) :
    Machine.Throughout (Volume.step warsaw resolve) (fun v => v.world.disk path ≠ none) v es ↔
      Machine.Allowed (Volume.step warsaw resolve) (NotDue resolve path) v es :=
  Machine.throughout_iff_within (step_keeps_iff warsaw) v there es whole

end Whole

theorem kept_iff_never_due_one :
    let v := (Machine.run (Volume.step warsawAtEpoch parts) ⟨⟨.new, fun _ => none⟩, fun _ => 0⟩
      (entryWritten 0 "one")).1
    Machine.Throughout (Volume.step warsawAtEpoch parts)
      (fun v => v.world.disk "logs/app.log" ≠ none) v (cleanedAfter 29) := by
  intro v
  refine (kept_iff_never_due parts "logs/app.log" warsawAtEpoch v (cleanedAfter 29) (by decide +kernel)
    ⟨trivial, ⟨?_, fun _ => rfl, by decide +kernel, fun _ => by decide +kernel, ?_⟩, trivial⟩).mpr
    ⟨trivial, ?_, trivial⟩
  · simp [logsTree, Distinct, names]
  · intro times there
    rw [logsTree_file there]
    decide +kernel
  · intro due
    obtain ⟨d, ⟨listed, -, -⟩, past⟩ := due
    obtain rfl := List.mem_singleton.mp listed
    revert past
    decide +kernel

end OpLog.Guarantees.Expiry
