import OpLog.Format.Attempt
import OpLog.Guarantees.OneFile

/-!
# What an attempt does to stored data

An attempt on a file that starts with the magic and complete frames, under every
combination of outcomes. Appending and the tail repair keep the frames. Creating does not:
`File::create` truncates, and an attempt takes that path whenever `metadata` fails, also on
a file that has content. That is the one case in which stored frames are lost.
-/
namespace OpLog.Guarantees.Preservation
open Library.FrameStream Format Source

/-- Afterwards the file starts with the magic and the frames, and it was never emptied. -/
def Preserved (ops : List DiskOp) (content : Bytes) (fs : List Bytes) : Prop :=
  (∃ more, applyOps ops (some content) = some (MAGIC ++ (fs.flatten ++ more))) ∧
    some [] ∉ contents ops (some content)

/-- The attempt is due, its `metadata` fails, and its `File::create` reaches the disk. -/
def Recreates (f : LogFile) (flushInterval : Duration) (env : AttemptEnv) : Prop :=
  f.due flushInterval env.now ∧ env.io.createDirAll ≠ .pending ∧
    (∃ e, env.io.metadata = .ready (.error e)) ∧ ∀ e, env.io.create ≠ .failed e false

theorem appends_never_empty (pieces : List Bytes) (content : Bytes) (some_bytes : content ≠ []) :
    some [] ∉ contents (pieces.map DiskOp.append) (some content) := by
  induction pieces generalizing content with
  | nil => simp [contents]
  | cons piece pieces ih =>
    unfold contents DiskOp.apply
    simp only [List.map_cons, Option.map_some, List.mem_cons, not_or]
    refine ⟨?_, ih (content ++ piece) (by simp [some_bytes])⟩
    intro h
    exact some_bytes (List.append_eq_nil_iff.mp (Option.some.inj h).symm).1

section Attempt
variable (f : LogFile) (flushInterval : Duration) (notice : Option String) (env : AttemptEnv)
  (fs : List Bytes) (rest : Bytes)

theorem log_ne_nil : MAGIC ++ (fs.flatten ++ rest) ≠ [] := by simp [MAGIC]

/-- The repair and what is appended behind it. -/
theorem repaired_preserved (complete : Complete Frame fs) (pieces : List Bytes) :
    Preserved (f.tailOps (MAGIC ++ (fs.flatten ++ rest)) ++ pieces.map DiskOp.append)
      (MAGIC ++ (fs.flatten ++ rest)) fs := by
  obtain ⟨n, cut⟩ := tailOps_keeps f fs rest complete
  constructor
  · refine ⟨rest.take n ++ pieces.flatten, ?_⟩
    rw [applyOps_append, cut, applyOps_appends]
    simp only [List.append_assoc]
  · rw [contents_append, cut, List.mem_append, not_or]
    refine ⟨?_, appends_never_empty pieces _ (log_ne_nil fs _)⟩
    rcases tailOps_safe f fs rest complete with none | ⟨m, found⟩
    · rw [none]
      simp [contents]
    · rw [found, applyOps_cons, applyOps_nil] at cut
      rw [found]
      simp only [contents, cut, List.mem_singleton]
      exact fun h => log_ne_nil fs _ (Option.some.inj h).symm

/-- On a file with content, exactly the attempts that re-create it get to `File::create`. -/
theorem creates_iff {content : Bytes} (some_bytes : content ≠ []) :
    .create ∈ (f.writeToFile flushInterval notice env (some content)).ops ↔
      Recreates f flushInterval env := by
  have outcome := writeToFile_outcome f flushInterval notice env (some content)
  generalize (f.writeToFile flushInterval notice env (some content)).ops = ops,
    (f.writeToFile flushInterval notice env (some content)).result = result at outcome ⊢
  have unseen (h : Recreates f flushInterval env) : env.io.sees (some content) = false := by
    obtain ⟨e, failed⟩ := h.2.2.1
    simp [WriteIo.sees, failed, hasContent]
  have recreates (due : f.due flushInterval env.now) (came : env.io.cameBack)
      (unseen : env.io.sees (some content) = false)
      (touched : ∀ e, env.io.create ≠ .failed e false) : Recreates f flushInterval env :=
    ⟨due, came.1, metadata_failed came some_bytes unseen, touched⟩
  have existing (seen : env.io.sees (some content) = true) (pieces : List Bytes) :
      .create ∈ f.tailOps content ++ pieces.map DiskOp.append ↔ Recreates f flushInterval env := by
    refine iff_of_false (existing_ops f content pieces) fun h => ?_
    rw [unseen h] at seen
    cases seen
  have behind (due : f.due flushInterval env.now) (came : env.io.cameBack)
      (opened : env.io.sees (some content) = false → env.io.create = .done ∧ env.io.magic = .done)
      (pieces : List Bytes) :
      .create ∈ f.openOps (some content) (env.io.sees (some content)) ++ pieces.map DiskOp.append ↔
        Recreates f flushInterval env := by
    cases seen : env.io.sees (some content) with
    | true => exact existing seen pieces
    | false =>
      refine iff_of_true (by simp [LogFile.openOps]) (recreates due came seen ?_)
      rw [(opened seen).1]
      simp
  cases outcome with
  | skipped idle => exact iff_of_false List.not_mem_nil fun h => idle h.1
  | refused e due cause =>
    refine iff_of_false List.not_mem_nil fun h => ?_
    rcases cause (unseen h) with pending | pending | failed
    · exact h.2.1 pending
    · obtain ⟨e, failed⟩ := h.2.2.1
      cases pending.symm.trans failed
    · exact h.2.2.2 e failed
  | created e due came fresh cause =>
    refine iff_of_true List.mem_cons_self (recreates due came fresh ?_)
    rw [cause]
    simp
  | magic e k due came fresh opened cause =>
    refine iff_of_true List.mem_cons_self (recreates due came fresh ?_)
    rw [opened]
    simp
  | repaired e due came seen =>
    have alone := existing seen []
    rwa [List.map_nil, List.append_nil] at alone
  | torn e k frame pieces due came opened encoded part whole => exact behind due came opened pieces
  | written frame due came opened encoded =>
    exact behind due came opened [frame.framePrefix, frame.payload]

/-- Exactly the attempts that re-create the file lose stored data: all others, successful
or not, leave the magic and every complete frame where they were. -/
theorem attempt_preserves_iff (complete : Complete Frame fs) :
    Preserved (f.writeToFile flushInterval notice env (some (MAGIC ++ (fs.flatten ++ rest)))).ops
        (MAGIC ++ (fs.flatten ++ rest)) fs ↔
      ¬ Recreates f flushInterval env := by
  rw [← creates_iff f flushInterval notice env (log_ne_nil fs rest)]
  have outcome := writeToFile_outcome f flushInterval notice env (some (MAGIC ++ (fs.flatten ++ rest)))
  generalize (f.writeToFile flushInterval notice env (some (MAGIC ++ (fs.flatten ++ rest)))).ops = ops,
    (f.writeToFile flushInterval notice env (some (MAGIC ++ (fs.flatten ++ rest)))).result = result
    at outcome ⊢
  have untouched : Preserved [] (MAGIC ++ (fs.flatten ++ rest)) fs ↔ DiskOp.create ∉ [] :=
    iff_of_true ⟨⟨rest, rfl⟩, by simp [contents]⟩ List.not_mem_nil
  have emptied (more : List DiskOp) :
      Preserved (.create :: more) (MAGIC ++ (fs.flatten ++ rest)) fs ↔
        DiskOp.create ∉ .create :: more :=
    iff_of_false (fun h => h.2 (by simp [contents, DiskOp.apply]))
      (not_not.mpr List.mem_cons_self)
  have behind (pieces : List Bytes) :
      let ops := f.openOps (some (MAGIC ++ (fs.flatten ++ rest)))
        (env.io.sees (some (MAGIC ++ (fs.flatten ++ rest)))) ++ pieces.map DiskOp.append
      Preserved ops (MAGIC ++ (fs.flatten ++ rest)) fs ↔ .create ∉ ops := by
    cases env.io.sees (some (MAGIC ++ (fs.flatten ++ rest))) with
    | true =>
      exact iff_of_true (repaired_preserved f fs rest complete pieces) (existing_ops f _ pieces)
    | false => exact emptied _
  cases outcome with
  | skipped idle => exact untouched
  | refused e due cause => exact untouched
  | created e due came fresh cause => exact emptied []
  | magic e k due came fresh opened cause => exact emptied _
  | repaired e due came existing =>
    have alone := behind []
    simp only [existing, LogFile.openOps, if_true, List.map_nil, List.append_nil] at alone
    exact alone
  | torn e k frame pieces due came opened encoded part whole => exact behind pieces
  | written frame due came opened encoded => exact behind [frame.framePrefix, frame.payload]

end Attempt

/-- A file with one complete frame, and an attempt on it whose `metadata` is refused. -/
def storedFrames : List Bytes := [[0xff, 0, 0, 0xc5]]

def queuedFile (header : String) (logs : List String) : LogFile where
  lastTimeUse := 0
  timeOfFirstAdditionOfLogAfterWrite := some 0
  logName := "a.log"
  header
  path := "logs"
  logs
  queuedBytes := (logs.map byteLen).sum
  droppedLogs := 0
  writeErrorLogged := false
  tailVerified := false

def refusedMetadata : AttemptEnv :=
  storedEnv { allDone with metadata := .ready (.error .permissionDenied) }

theorem storedFrames_complete : Complete Frame storedFrames := by
  intro f member
  unfold storedFrames at member
  simp only [List.mem_singleton] at member
  subst member
  exact ⟨0, 0, [0xc5], [], rfl, trivial, .last 0xc5 rfl⟩

/-- The attempt succeeds, and the stored frame is gone. -/
theorem refused_metadata_erases :
    Complete Frame storedFrames ∧
    ¬ ∃ more, applyOps ((queuedFile "" ["entry"]).writeToFile 0 none refusedMetadata
        (some (MAGIC ++ (storedFrames.flatten ++ [])))).ops
        (some (MAGIC ++ (storedFrames.flatten ++ []))) =
      some (MAGIC ++ (storedFrames.flatten ++ more)) := by
  refine ⟨storedFrames_complete, ?_⟩
  intro prefixed
  obtain ⟨more, same⟩ := prefixed
  have start := congrArg (fun content => content.map (·.take 14)) same
  have erased : (applyOps ((queuedFile "" ["entry"]).writeToFile 0 none refusedMetadata
      (some (MAGIC ++ (storedFrames.flatten ++ [])))).ops
      (some (MAGIC ++ (storedFrames.flatten ++ [])))).map (·.take 14) ≠
    some (MAGIC ++ storedFrames.flatten) := by decide +kernel
  exact erased (by simpa [storedFrames, MAGIC] using start)

theorem attempt_preserves_iff_refused :
    ¬ Preserved ((queuedFile "" ["entry"]).writeToFile 0 none refusedMetadata
        (some (MAGIC ++ (storedFrames.flatten ++ [])))).ops
        (MAGIC ++ (storedFrames.flatten ++ [])) storedFrames := by
  rw [attempt_preserves_iff _ _ _ _ _ _ storedFrames_complete, not_not]
  exact ⟨⟨by simp [queuedFile], by decide⟩, fun h => (by cases h), ⟨_, rfl⟩, fun _ h => (by cases h)⟩

end OpLog.Guarantees.Preservation
