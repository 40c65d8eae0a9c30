import OpLog.Library.Machine
import OpLog.Source.FailingWalk
import OpLog.Source.Service

/-!
# The worker on a volume

What the run loop leaves open, filled in from `clean_up_delete_files.rs`: a cleanup tick runs
the worker's own rules on the tree of the volume, and deletes what that pass deletes. The
volume keeps the modification time of every file. The tree a pass finds is part of the event,
since it lists much that is not the worker's.
-/
namespace OpLog.Source
open Library

/-- A regular file is listed at this path. -/
def Listing.lists : Listing → List String → Bool
  | .nil, _ => false
  | .file name _ rest, path => decide (path = [name]) || rest.lists path
  | .dir _ _ rest, [] => rest.lists []
  | .dir name entries rest, first :: below =>
    (decide (first = name) && entries.lists below) || rest.lists (first :: below)
  | .other _ rest, path => rest.lists path

/-- `modified` is the time of each file's last change. -/
structure Volume where
  world : World
  modified : String → SystemTime

/-- `now` is a reading of the clock: the latest one of a cleanup tick, and one taken before
anything is written at any other step. -/
inductive VolumeEvent where
  | writerTick (now : SystemTime) (env : PassEnv)
  | cleanupTick (now : SystemTime) (instant : Instant) (tree : Listing) (pass : FailingPass)
  | message (now : SystemTime) (env : MessageEnv) (msg : OpLogMessage)

def VolumeEvent.now : VolumeEvent → SystemTime
  | .writerTick now _ => now
  | .cleanupTick now _ _ _ => now
  | .message now _ _ => now

/-- One pass of the cleanup under these rules, cut off by its timeout or not. -/
def cleanUpTree (resolve : String → List String) (rules : List OpLogCleanUpDefinition)
    (tree : Listing) (pass : FailingPass) : Listing × Bool :=
  let out := cleanUpDeleteFilesFailing resolve pass rules 0 tree pass.steps
  (out.1, out.2.isSome)

/-- The files that were listed before and are not listed any more. -/
def deletedFrom (resolve : String → List String) (before after : Listing) (path : String) : Bool :=
  before.lists (resolve path) && !after.lists (resolve path)

namespace Volume
variable (warsaw : DateTimeUtc → LocalDateTime) (resolve : String → List String)

/-- The step of the worker. -/
def event (v : Volume) : VolumeEvent → Event
  | .writerTick _ env => .writerTick env
  | .cleanupTick _ instant tree pass =>
    let out := cleanUpTree resolve v.world.worker.cleanUpDefinitions tree pass
    .cleanupTick instant (deletedFrom resolve tree out.1) out.2
  | .message _ env msg => .message env msg

def step (v : Volume) (e : VolumeEvent) : Volume × List Output :=
  let (world, out) := v.world.step warsaw (v.event resolve e)
  (⟨world, fun path =>
    if world.disk path = v.world.disk path then v.modified path else e.now⟩, out)

/-- The steps of the worker in a run of the volume. -/
def events (v : Volume) (es : List VolumeEvent) : List Event :=
  Machine.projected (step warsaw resolve) (fun v e => [v.event resolve e]) v es

/-- A run of the volume is a run of the worker. -/
theorem run_world (v : Volume) (es : List VolumeEvent) :
    Machine.run (World.step warsaw) v.world (v.events warsaw resolve es) =
      ((Machine.run (step warsaw resolve) v es).1.world, (Machine.run (step warsaw resolve) v es).2) := by
  refine Machine.run_projected (step warsaw resolve) (fun v e => [v.event resolve e]) world id rfl
    (fun _ _ => rfl) ?_ v es
  intro v e
  rw [Machine.run_cons, Machine.run_nil, List.append_nil]
  rfl

variable {warsaw resolve}

/-- What a guard admits of the worker's steps it admits of the volume's. -/
theorem allowed_world {guard : World → Event → Prop} (v : Volume) (es : List VolumeEvent) :
    Machine.Allowed (World.step warsaw) guard v.world (v.events warsaw resolve es) ↔
      Machine.Allowed (step warsaw resolve) (fun v e => guard v.world (v.event resolve e)) v es := by
  induction es generalizing v with
  | nil => exact Iff.rfl
  | cons e es ih => exact and_congr_right fun _ => ih (v.step warsaw resolve e).1

end Volume
end OpLog.Source
