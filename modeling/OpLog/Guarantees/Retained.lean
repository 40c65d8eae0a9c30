import OpLog.Guarantees.Expiry
import OpLog.Guarantees.ReadBack

/-!
# What can be read of a file that is cleaned up

The worker's own cleanup in the way of what it has logged. A tick that deletes the file takes
with it the frames that were written, and nothing else: what is queued is written to a new file,
although the `LogFile` may still hold the old one's tail for verified. So a reader finds at any
moment what was written since the last deletion, and that deletion was one whose days had gone by.
-/
namespace OpLog.Guarantees.Retained
open Library Library.FrameStream Format Source RoundTrip Retention Delivery Recovery OwnFile ReadBack
open Expiry

section Volumes
variable (warsaw : DateTimeUtc → LocalDateTime) (inflate : Bytes → Option Bytes)
  (resolve : String → List String) (path name key : String)

/-- At this step no other `LogFile` with entries is at the file's path, what the worker does to the
file is readable, and the volume reports the file's time. -/
def Tended (v : Volume) (e : VolumeEvent) : Prop :=
  v.world.worker.OnlyAt path name key ∧ Reported resolve path v e ∧
    Machine.Allowed (FileState.step warsaw) (Readable warsaw inflate) (slot path name key v.world)
      ((v.world.opsOn warsaw name key (v.event resolve e)).map event)

/-- The cleanup tick deletes the file. -/
def Deletes (v : Volume) : VolumeEvent → Prop
  | .cleanupTick _ _ tree pass =>
    deletedFrom resolve tree (cleanUpTree resolve v.world.worker.cleanUpDefinitions tree pass).1 path =
      true
  | _ => False

variable {warsaw inflate resolve path name key}

theorem undisturbed_of_kept {v : Volume} {e : VolumeEvent}
    (tended : Tended warsaw inflate resolve path name key v e) (kept : ¬ Deletes resolve path v e) :
    Undisturbed warsaw inflate path name key v.world (v.event resolve e) := by
  obtain ⟨alone, -, readable⟩ := tended
  have spared : deletion path (v.event resolve e) = [] := by
    cases e with
    | writerTick now env => rfl
    | message now env msg => rfl
    | cleanupTick now instant tree pass => exact if_neg kept
  refine ⟨alone, ?_⟩
  unfold eventsOn
  rwa [spared, List.append_nil]

/-- Behind a tick that deletes the file there is nothing to read, whatever its `LogFile` holds. -/
theorem found_of_deleted {v : Volume} {e : VolumeEvent} (deleted : Deletes resolve path v e) :
    Found inflate (slot path name key (v.step warsaw resolve e).1.world) [] := by
  cases e with
  | writerTick now env => cases deleted
  | message now env msg => cases deleted
  | cleanupTick now instant tree pass =>
    have absent : (v.step warsaw resolve (.cleanupTick now instant tree pass)).1.world.disk path =
        none := if_pos deleted
    refine ⟨[], [], ?_, .nil, fun _ _ _ => rfl⟩
    unfold slot
    rw [absent]
    exact .absent

theorem placed_run (disk : Disk) (modified : String → SystemTime) (es : List VolumeEvent) :
    Placed (Machine.run (Volume.step warsaw resolve) ⟨⟨.new, disk⟩, modified⟩ es).1.world.worker :=
  Machine.run_state_invariant (fun v : Volume => Placed v.world.worker)
    (fun v e _ placed => step_placed v.world (v.event resolve e) placed) ⟨⟨.new, disk⟩, modified⟩
    placed_new es (Machine.allowed_of_forall _ _ fun _ _ _ => trivial)

/-- From a log file on, as long as no tick deletes it. -/
theorem found_while_kept (v : Volume) (es : List VolumeEvent) (placed : Placed v.world.worker)
    (place : ∀ f, Forgetting.Located name key f → f.diskPath = path) {old : List String}
    (start : Found inflate (slot path name key v.world) old)
    (tended : Machine.Allowed (Volume.step warsaw resolve)
      (Tended warsaw inflate resolve path name key) v es)
    (kept : Machine.Allowed (Volume.step warsaw resolve) (fun v e => ¬ Deletes resolve path v e) v es) :
    let final := Machine.run (Volume.step warsaw resolve) v es
    ∃ found, Found inflate (slot path name key final.1.world) (old ++ found) ∧
      ((framesOf name key final.2).map text).Sublist found ∧
      (found = (framesOf name key final.2).map text ↔ Machine.Allowed (Volume.step warsaw resolve)
        (fun v e => NoneLands warsaw path name key v.world (v.event resolve e)) v es) := by
  intro final
  have undisturbed := (Volume.allowed_world v es).mpr
    ((tended.both kept).mono fun _ _ h => undisturbed_of_kept h.1 h.2)
  obtain ⟨found, after, order, exact⟩ :=
    found_from v.world (v.events warsaw resolve es) placed place start undisturbed
  rw [Volume.run_world] at after order exact
  exact ⟨found, after, order, exact.trans (Volume.allowed_world v es)⟩

variable (warsaw resolve path) in
/-- A cleanup tick at the end deletes the file, and there the days of a governing rule had gone by
since its last change. -/
def EndsDeleted (start : Volume) (before : List VolumeEvent) : Prop :=
  ∃ earlier now instant tree pass, before = earlier ++ [.cleanupTick now instant tree pass] ∧
    let v := (Machine.run (Volume.step warsaw resolve) start earlier).1
    Deletes resolve path v (.cleanupTick now instant tree pass) ∧ Due resolve path v now

variable (warsaw resolve path) in
/-- The file is read from here on: from the beginning, with the blocks there were, or from the
cleanup tick on that deleted it. No later tick deletes it. -/
def ReadFrom (start : Volume) (old : List String) (before after : List VolumeEvent)
    (first : List String) : Prop :=
  (before = [] ∧ first = old ∨ first = [] ∧ EndsDeleted warsaw resolve path start before) ∧
    Machine.Allowed (Volume.step warsaw resolve) (fun v e => ¬ Deletes resolve path v e)
      (Machine.run (Volume.step warsaw resolve) start before).1 after

variable (warsaw) in
/-- Every run ends with a part that deletes nothing, from where on the file is read. -/
theorem last_deletion (start : Volume) (es : List VolumeEvent)
    (reported : Machine.Allowed (Volume.step warsaw resolve) (Reported resolve path) start es)
    {old : List String} (found : Found inflate (slot path name key start.world) old) :
    ∃ before after first, es = before ++ after ∧
      ReadFrom warsaw resolve path start old before after first ∧
      Found inflate (slot path name key
        (Machine.run (Volume.step warsaw resolve) start before).1.world) first := by
  rcases Machine.run_last (Deletes resolve path) start es with
    kept | ⟨earlier, e, after, rfl, deleted, kept⟩
  · exact ⟨[], es, old, rfl, ⟨Or.inl ⟨rfl, rfl⟩, kept⟩, found⟩
  · refine ⟨earlier ++ [e], after, [], by simp, ⟨Or.inr ⟨rfl, ?_⟩, kept⟩, ?_⟩
    · obtain ⟨-, now_reported, -⟩ := (Machine.allowed_append _ _ _).mp reported
      cases e with
      | writerTick now env => cases deleted
      | message now env msg => cases deleted
      | cleanupTick now instant tree pass =>
        exact ⟨earlier, now, instant, tree, pass, rfl, deleted,
          due_of_deleted _ now_reported deleted⟩
    · rw [Machine.run_append]
      exact found_of_deleted deleted

end Volumes

/-- From `log` to the reader, on a volume that the worker itself cleans up. The file is the worker's
own, with what `logged_entries_are_read_back` assumes of its attempts (`metadata` never fails on the
existing file, no creation leaves a part of the magic only, the file is within the limit of the tail
check, payloads are below `2 ^ 35` bytes, the reader undoes the compressor), but cleanup ticks may
delete it; the volume lists no name twice and reports no time of the file before its last change.
Then a reader finds at any moment what was written to the file since the last cleanup tick that
deleted it, and at that tick the days of a rule had gone by since the file's last change. The
entries routed to the file are, in order, those of the frames it was deleted with, then what each
block that is read reports as dropped and holds, then what is dropped and not yet reported, then
what is still queued: no entry that was queued at a deletion is lost with the file. -/
theorem kept_entries_are_read_back (warsaw : DateTimeUtc → LocalDateTime)
    (inflate : Bytes → Option Bytes) (resolve : String → List String) {path name key : String}
    (disk : Disk) (modified : String → SystemTime) (es : List VolumeEvent)
    (place : ∀ f, Forgetting.Located name key f → f.diskPath = path) {fs : List Bytes} {t : Bytes}
    (stores : Stores (disk path) fs t) {old : List String}
    (blocks : List.Forall₂ (Block inflate) fs old)
    (tended : Machine.Allowed (Volume.step warsaw resolve)
      (Tended warsaw inflate resolve path name key) ⟨⟨.new, disk⟩, modified⟩ es) :
    let final := Machine.run (Volume.step warsaw resolve) ⟨⟨.new, disk⟩, modified⟩ es
    ∃ before after first gs u found shown, ∃ q : DropQueue String, ∃ lost kept,
      es = before ++ after ∧
      ReadFrom warsaw resolve path ⟨⟨.new, disk⟩, modified⟩ old before after first ∧
      Stores (final.1.world.disk path) gs u ∧
      decodeOplogFile inflate (MAGIC ++ gs.flatten) = some (first ++ found) ∧
      q.entries = routed name key final.2 ∧
      q.queue = (final.1.world.worker.file? name key).elim [] (·.logs) ∧
      q.dropped.length = (final.1.world.worker.file? name key).elim 0 (·.droppedLogs) ∧
      q.history = lost ++ kept ∧
      (let cut := Machine.run (Volume.step warsaw resolve) ⟨⟨.new, disk⟩, modified⟩ before
      let worked := Volume.events warsaw resolve ⟨⟨.new, disk⟩, modified⟩ es
      List.Forall₂ (Account (attemptsOf (passesOf worked) name key)) lost
          (framesOf name key cut.2) ∧
        List.Forall₂ Shows kept shown ∧ shown.Sublist found ∧
        (found = shown ↔ Machine.Allowed (Volume.step warsaw resolve)
          (fun v e => NoneLands warsaw path name key v.world (v.event resolve e)) cut.1 after)) := by
  intro final
  have start : Found inflate (slot path name key ⟨.new, disk⟩) old :=
    ⟨fs, t, stores, blocks, fun f live => by cases live⟩
  obtain ⟨before, after, first, rfl, from_here, begun⟩ :=
    last_deletion warsaw ⟨⟨.new, disk⟩, modified⟩ es (tended.mono fun _ _ h => h.2.1) start
  obtain ⟨-, later⟩ := (Machine.allowed_append _ _ _).mp tended
  obtain ⟨found, ⟨gs, u, stores', blocks', -⟩, order, exact⟩ :=
    found_while_kept _ after (placed_run disk modified before) place begun later from_here.2
  obtain ⟨q, accounts⟩ := run_balanced warsaw disk
    (Volume.events warsaw resolve ⟨⟨.new, disk⟩, modified⟩ (before ++ after)) name key
  have world := Volume.run_world warsaw resolve ⟨⟨.new, disk⟩, modified⟩ (before ++ after)
  dsimp only at world
  rw [world] at accounts
  have frames := accounts.frames
  rw [Machine.run_append, framesOf_append] at frames
  refine ⟨before, after, first, gs, u, found, _, q, _, _, rfl, from_here, ?_,
    decode_blocks blocks' stores'.complete, accounts.entries, accounts.queue, accounts.dropped,
    (List.take_append_drop _ q.history).symm, List.forall₂_take_append _ _ _ frames,
    shows_written (List.forall₂_drop_append _ _ _ frames), order, exact⟩
  have last : final.1 = (Machine.run (Volume.step warsaw resolve)
      (Machine.run (Volume.step warsaw resolve) ⟨⟨.new, disk⟩, modified⟩ before).1 after).1 := by
    unfold final
    rw [Machine.run_append]
  rw [last]
  exact stores'

/-! ## A run with a deletion -/

/-- What the worker does in an undisturbed step is readable. -/
theorem tended_of_undisturbed {warsaw : DateTimeUtc → LocalDateTime} {inflate : Bytes → Option Bytes}
    {resolve : String → List String} {path name key : String} {v : Volume} {e : VolumeEvent}
    (undisturbed : Undisturbed warsaw inflate path name key v.world (v.event resolve e))
    (reported : Reported resolve path v e) : Tended warsaw inflate resolve path name key v e :=
  ⟨undisturbed.1, reported, ((Machine.allowed_append _ _ _).mp undisturbed.2).1⟩

/-- The file is deleted between its two entries. -/
def deletedBetween : List VolumeEvent :=
  entryWritten 0 "one" ++ cleanedAfter 30 ++ entryWritten (plusDays 0 30) "two"

theorem kept_entries_are_read_back_deleted :
    let final := Machine.run (Volume.step warsawAtEpoch parts) ⟨⟨.new, fun _ => none⟩, fun _ => 0⟩
      deletedBetween
    ∃ before after first gs u found shown, ∃ q : DropQueue String, ∃ lost kept,
      deletedBetween = before ++ after ∧
      ReadFrom warsawAtEpoch parts "logs/app.log" ⟨⟨.new, fun _ => none⟩, fun _ => 0⟩ [] before after
        first ∧
      Stores (final.1.world.disk "logs/app.log") gs u ∧
      decodeOplogFile inflateStored (MAGIC ++ gs.flatten) = some (first ++ found) ∧
      q.entries = routed "app" "logs/app.log" final.2 ∧
      q.queue = (final.1.world.worker.file? "app" "logs/app.log").elim [] (·.logs) ∧
      q.dropped.length = (final.1.world.worker.file? "app" "logs/app.log").elim 0 (·.droppedLogs) ∧
      q.history = lost ++ kept ∧
      (let cut := Machine.run (Volume.step warsawAtEpoch parts)
        ⟨⟨.new, fun _ => none⟩, fun _ => 0⟩ before
      let worked := Volume.events warsawAtEpoch parts ⟨⟨.new, fun _ => none⟩, fun _ => 0⟩
        deletedBetween
      List.Forall₂ (Account (attemptsOf (passesOf worked) "app" "logs/app.log")) lost
          (framesOf "app" "logs/app.log" cut.2) ∧
        List.Forall₂ Shows kept shown ∧ shown.Sublist found ∧
        (found = shown ↔ Machine.Allowed (Volume.step warsawAtEpoch parts)
          (fun v e => NoneLands warsawAtEpoch "logs/app.log" "app" "logs/app.log" v.world
            (v.event parts e)) cut.1 after)) := by
  have alone (v : Volume) (listed : ∀ place ∈ v.world.worker.queuedPaths, place.2 = "logs/app.log" →
      place.1 = ("app", "logs/app.log")) := onlyAt_of_listed listed
  refine kept_entries_are_read_back warsawAtEpoch inflateStored parts (fun _ => none) (fun _ => 0)
    deletedBetween app_place .absent .nil ⟨?_, ?_, ?_, ?_, ?_, ?_, trivial⟩
  · exact tended_of_undisturbed (undisturbed_entry _ _ _ _ (alone _ (by decide +kernel))) trivial
  · exact tended_of_undisturbed
      (undisturbed_tick _ _ (alone _ (by decide +kernel)) rfl rfl (by decide +kernel)) trivial
  · exact ⟨alone _ (by decide +kernel), trivial, trivial⟩
  · exact ⟨alone _ (by decide +kernel), reported_logsTree (by decide +kernel) _ _, trivial, trivial⟩
  · exact tended_of_undisturbed (undisturbed_entry _ _ _ _ (alone _ (by decide +kernel))) trivial
  · exact tended_of_undisturbed
      (undisturbed_tick _ _ (alone _ (by decide +kernel)) rfl rfl (by decide +kernel)) trivial

end OpLog.Guarantees.Retained
