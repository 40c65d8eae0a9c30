import OpLog.Guarantees.OwnFile
import OpLog.Guarantees.Recovery
import OpLog.Guarantees.RoundTrip
import OpLog.Guarantees.TwoWorkers

/-!
# Reading back what was logged

What a reader finds in a file at any moment of a run, end to end: the entries routed to the
file went through its queue, were framed, compressed and obfuscated, survived attempts that
failed and the repairs behind them, and are read back block by block. A block is there once
more than it should be exactly if an attempt that failed had put all of its frame on disk.
The file is one that its worker has to itself, and of every attempt on it `Recovery.Assumed`
is assumed; where that fails a file can be lost as a whole (`Preservation`, `Creation`).
-/
namespace OpLog.Guarantees.ReadBack
open Library Library.FrameStream Format Source RoundTrip Delivery Recovery OwnFile

/-! ## Blocks -/

section Blocks
variable {inflate : Bytes → Option Bytes}

/-- The reader takes the frame off the front of any stream, and reads it as this text. -/
def Block (inflate : Bytes → Option Bytes) (frame : Bytes) (text : String) : Prop :=
  ∀ rest, decodeBlock inflate (frame ++ rest) = some (text, rest)

theorem decodeBlocks_blocks {fs : List Bytes} {texts : List String}
    (blocks : List.Forall₂ (Block inflate) fs texts) (nonempty : ∀ f ∈ fs, f ≠ []) (fuel : Nat)
    (enough : fs.flatten.length ≤ fuel) : decodeBlocks inflate fuel fs.flatten = some texts := by
  induction blocks generalizing fuel with
  | nil => cases fuel <;> rfl
  | @cons f text fs texts block blocks ih =>
    have some_bytes := List.length_pos_iff.mpr (nonempty f List.mem_cons_self)
    rw [List.flatten_cons, List.length_append] at enough
    obtain ⟨byte, bytes, rfl⟩ := List.exists_cons_of_length_pos some_bytes
    cases fuel with
    | zero =>
      rw [List.length_cons] at enough
      omega
    | succ fuel =>
      rw [List.length_cons] at enough
      have rest := ih (fun f member => nonempty f (List.mem_cons_of_mem _ member)) fuel (by omega)
      have first := block fs.flatten
      rw [List.flatten_cons, List.cons_append] at *
      unfold decodeBlocks
      rw [first]
      simp only [Option.bind_eq_bind, Option.bind_some, rest]
      rfl

/-- A log file of blocks, read by the reference reader. -/
theorem decode_blocks {fs : List Bytes} {texts : List String}
    (blocks : List.Forall₂ (Block inflate) fs texts) (complete : Complete PossibleFrame fs) :
    decodeOplogFile inflate (MAGIC ++ fs.flatten) = some texts := by
  unfold decodeOplogFile
  rw [List.take_left, if_pos rfl, List.drop_left]
  apply decodeBlocks_blocks blocks
  · exact fun f member => possible_code.nonempty f (complete f member)
  · simp

end Blocks

/-! ## One attempt -/

/-- The text of a frame that was written. -/
def text (w : Written) : String := frameText w.header w.notice w.entries

/-- The attempt put its whole frame behind what its opening left. -/
def Lands (f : LogFile) (notice : Option String) (env : AttemptEnv) (content : Option Bytes)
    (ops : List DiskOp) : Prop :=
  ∃ (frame : EncodedFrame) (pieces : List Bytes),
    encodeFrame env.deflater env.rnd f.logs (f.headerFor (env.io.sees content)) notice =
      .ok frame ∧ pieces.flatten = frame.bytes ∧
    ops = f.openOps content (env.io.sees content) ++ pieces.map DiskOp.append

section Attempt
variable {f : LogFile} {flushInterval : Duration} {notice : Option String} {env : AttemptEnv}
  {content : Option Bytes} {fs : List Bytes} {t : Bytes}

/-- An attempt that does no more than open the file has put no frame on disk. -/
theorem not_lands (ops : List DiskOp)
    (short : ops.length ≤ (f.openOps content (env.io.sees content)).length) :
    ¬ Lands f notice env content ops := by
  intro lands
  obtain ⟨frame, pieces, encoded, whole, rfl⟩ := lands
  have none : pieces = [] := by
    rw [List.length_append, List.length_map] at short
    exact List.length_eq_zero_iff.mp (by omega)
  subst none
  exact frame_code.nonempty _ (encodeFrame_frame encoded).1 whole.symm

/-- Where the attempt sees no content there are no frames either. -/
theorem unseen_frames (stores : Stores content fs t) (verified : f.tailVerified = true → t = [])
    (assumed : Assumed f notice env content) (came : env.io.cameBack)
    (unseen : env.io.sees content = false) : fs = [] := by
  have opened := openOps_stores stores verified assumed came
  have complete := stores.complete
  rw [unseen] at opened
  cases fs with
  | nil => rfl
  | cons frame fs =>
    have some_bytes := possible_code.nonempty frame (complete frame List.mem_cons_self)
    have same : some MAGIC = some (MAGIC ++ (frame :: fs).flatten) := opened
    simp [some_bytes] at same

/-- What an attempt leaves on a log file: what was there, or that and its own frame; a failed one
leaves its frame exactly if it lands. -/
theorem attempt_adds (stores : Stores content fs t) (verified : f.tailVerified = true → t = [])
    (assumed : f.due flushInterval env.now → Assumed f notice env content) :
    let e := f.writeToFile flushInterval notice env content
    (e.ops = [] ∧ e.result = .ok (f.afterSkip, none)) ∨
    (∃ error u, e.result = .error error ∧ f.logs ≠ [] ∧ Stores (applyOps e.ops content) fs u ∧
      ¬ Lands f notice env content e.ops) ∨
    ∃ frame, encodeFrame env.deflater env.rnd f.logs (f.headerFor (env.io.sees content)) notice =
        .ok frame ∧ Stores (applyOps e.ops content) (fs ++ [frame.bytes]) [] ∧
      ((∃ error, e.result = .error error ∧ Lands f notice env content e.ops) ∨
        e.result = .ok (f.afterWrite frame.consumed,
          some ⟨f.headerFor (env.io.sees content), notice, f.logs.take frame.consumed, frame⟩)) := by
  intro e
  have complete := stores.complete
  have opened (due : f.due flushInterval env.now) := openOps_stores stores verified (assumed due)
  have unseen (due : f.due flushInterval env.now) := unseen_frames stores verified (assumed due)
  have whole (frame : EncodedFrame) (due : f.due flushInterval env.now) (came : env.io.cameBack)
      (encoded : encodeFrame env.deflater env.rnd f.logs (f.headerFor (env.io.sees content)) notice =
        .ok frame) (pieces : List Bytes) (all : pieces.flatten = frame.bytes) :
      Stores (applyOps (f.openOps content (env.io.sees content) ++ pieces.map DiskOp.append) content)
        (fs ++ [frame.bytes]) [] := by
    have possible := (encodeFrame_frame encoded).2 ((assumed due).fits frame encoded)
    have after := Stores.frames _ [] (complete_snoc complete possible) (Or.inl rfl)
    rw [applyOps_append, opened due came, applyOps_appends, all]
    simpa only [List.flatten_append, List.flatten_cons, List.flatten_nil, List.append_nil,
      List.append_assoc] using after
  have outcome := writeToFile_outcome f flushInterval notice env content
  change Outcome f flushInterval notice env content _ e.ops e.result at outcome
  generalize e.ops = ops, e.result = result at outcome ⊢
  cases outcome with
  | skipped idle => exact Or.inl ⟨rfl, rfl⟩
  | refused error due cause =>
    exact Or.inr (Or.inl ⟨error, t, rfl, due.1, stores, not_lands [] (Nat.zero_le _)⟩)
  | created error due came fresh cause =>
    have none := unseen due came fresh
    subst none
    refine Or.inr (Or.inl ⟨error, [], rfl, due.1, .empty, not_lands _ ?_⟩)
    rw [fresh]
    exact Nat.le_succ 1
  | magic error k due came fresh made cause =>
    have none := unseen due came fresh
    subst none
    have all : k = 0 ∨ MAGIC.length ≤ k := by
      rcases cause with cut | ⟨-, all, -⟩
      · exact (assumed due).magic fresh error k cut
      · exact Or.inr (Nat.le_of_eq all.symm)
    have left : Stores (applyOps [.create, .append (MAGIC.take k)] content) [] [] := by
      rcases all with rfl | all
      · exact .empty
      · simp only [applyOps_cons, applyOps_nil, DiskOp.apply, Option.map_some, List.nil_append,
          List.take_of_length_le all]
        exact .frames [] [] (complete_nil _) (Or.inl rfl)
    refine Or.inr (Or.inl ⟨error, [], rfl, due.1, left, not_lands _ ?_⟩)
    rw [fresh]
    exact Nat.le_refl 2
  | repaired error due came existing =>
    have repaired := opened due came
    rw [existing, LogFile.openOps, if_pos rfl] at repaired
    refine Or.inr (Or.inl ⟨error, [], rfl, due.1, ?_, not_lands _ ?_⟩)
    · rw [repaired]
      simpa using Stores.frames fs [] complete (Or.inl rfl)
    · rw [existing]
      exact Nat.le_refl _
  | torn error k frame pieces due came made encoded part all =>
    have possible := (encodeFrame_frame encoded).2 ((assumed due).fits frame encoded)
    rcases take_frame possible k with tail | landed
    · refine Or.inr (Or.inl ⟨error, frame.bytes.take k, rfl, due.1, ?_, ?_⟩)
      · rw [applyOps_append, opened due came, applyOps_appends, part, List.append_assoc]
        exact .frames fs _ complete tail
      · intro lands
        obtain ⟨frame', pieces', encoded', whole', same⟩ := lands
        cases encoded.symm.trans encoded'
        have equal := List.append_cancel_left same
        have pieces_eq := List.map_injective_iff.mpr (fun _ _ h => DiskOp.append.inj h) equal
        subst pieces_eq
        rw [part] at whole'
        exact tail_no_frame possible_code possible tail (r := []) (by rw [whole', List.append_nil])
    · have all := part.trans landed
      exact Or.inr (Or.inr ⟨frame, encoded, whole frame due came encoded pieces all,
        Or.inl ⟨error, rfl, frame, pieces, encoded, all, rfl⟩⟩)
  | written frame due came made encoded =>
    refine Or.inr (Or.inr ⟨frame, encoded, whole frame due came encoded _ ?_, Or.inr rfl⟩)
    simp [EncodedFrame.bytes]

end Attempt

/-! ## Runs -/

theorem append_eq_iff {α : Type} {a a' b b' : List α} (first : a'.Sublist a) (second : b'.Sublist b) :
    a ++ b = a' ++ b' ↔ a = a' ∧ b = b' := by
  constructor
  · intro same
    have lengths := congrArg List.length same
    rw [List.length_append, List.length_append] at lengths
    have le := first.length_le
    have le' := second.length_le
    exact ⟨(first.eq_of_length (by omega)).symm, (second.eq_of_length (by omega)).symm⟩
  · rintro ⟨rfl, rfl⟩
    rfl

section Runs
variable (warsaw : DateTimeUtc → LocalDateTime) (inflate : Bytes → Option Bytes)

/-- Nothing deletes the file, and an attempt is one of which `Recovery.Assumed` may be assumed
whenever it is due (its metadata does not fail on an existing file, its creation leaves nothing of
the magic or all of it, the file is one that the tail check accepts, the payload is below `2 ^ 35`
bytes), with a compressor that the reader undoes. -/
def Readable (s : FileState) : FileEvent → Prop
  | .write d flushInterval env =>
    Inflates env.deflater inflate ∧ EventAssumed warsaw s (.write d flushInterval env)
  | .delete => False
  | _ => True

/-- No attempt that fails has put its whole frame on disk. -/
def Strict (s : FileState) : FileEvent → Prop
  | .write d flushInterval env => ∀ f error, s.live = some f →
      (FileState.attempt warsaw f d flushInterval env s.disk).result = .error error →
      ¬ Lands f (d.backlogNotice warsaw f env.utcNow) env s.disk
        (FileState.attempt warsaw f d flushInterval env s.disk).ops
  | _ => True

/-- A log file whose blocks read as these texts, and whose tail is whole while the flag says
so. -/
def Found (s : FileState) (texts : List String) : Prop :=
  ∃ fs t, Stores s.disk fs t ∧ List.Forall₂ (Block inflate) fs texts ∧
    ∀ f, s.live = some f → f.tailVerified = true → t = []

variable {warsaw inflate}

theorem Found.live {s s' : FileState} {texts : List String} (found : Found inflate s texts)
    (disk : s'.disk = s.disk)
    (flag : ∀ f', s'.live = some f' → f'.tailVerified = true →
      ∃ f, s.live = some f ∧ f.tailVerified = true) : Found inflate s' texts := by
  obtain ⟨fs, t, stores, blocks, verified⟩ := found
  refine ⟨fs, t, by rwa [disk], blocks, ?_⟩
  intro f' live' set
  obtain ⟨f, live, before⟩ := flag f' live' set
  exact verified f live before

/-- A step adds the block of the frame it wrote, if it wrote one, or of the one that landed
although it failed. -/
theorem step_found (s : FileState) (e : FileEvent) (readable : Readable warsaw inflate s e)
    {old : List String} (found : Found inflate s old) :
    ∃ added, Found inflate (s.step warsaw e).1 (old ++ added) ∧
      ((s.step warsaw e).2.map fun w => text w.written).Sublist added ∧
      (added = (s.step warsaw e).2.map (fun w => text w.written) ↔ Strict warsaw s e) := by
  have still (s' : FileState) (found' : Found inflate s' old) : Found inflate s' (old ++ []) := by
    rwa [List.append_nil]
  have nothing : ([] : List String) = ([] : List FileWrite).map (fun w => text w.written) := rfl
  cases e with
  | queue d logName path log now =>
    exact ⟨[], still _ (found.live rfl fun _ => FileState.step_flag (by simp)),
      List.Sublist.refl _, iff_of_true rfl trivial⟩
  | cleanUp now =>
    exact ⟨[], still _ (found.live rfl fun _ => FileState.step_flag (by simp)),
      List.Sublist.refl _, iff_of_true rfl trivial⟩
  | restart =>
    exact ⟨[], still _ (found.live rfl fun _ => FileState.step_flag (by simp)),
      List.Sublist.refl _, iff_of_true rfl trivial⟩
  | delete => exact absurd readable id
  | write d flushInterval env =>
    obtain ⟨law, assumed⟩ := readable
    cases live : s.live with
    | none =>
      have same : s.step warsaw (.write d flushInterval env) = (s, []) := by
        unfold FileState.step
        simp only [live]
      rw [same]
      refine ⟨[], still _ found, List.Sublist.refl _, iff_of_true rfl ?_⟩
      intro f error live'
      rw [live] at live'
      cases live'
    | some f =>
      obtain ⟨fs, t, stores, blocks, verified⟩ := found
      have strict_ok {r : LogFile × Option Written}
          (ok : (FileState.attempt warsaw f d flushInterval env s.disk).result = .ok r) :
          Strict warsaw s (.write d flushInterval env) := by
        intro f' error live' failed
        rw [live] at live'
        cases live'
        rw [ok] at failed
        cases failed
      have block (frame : EncodedFrame)
          (encoded : encodeFrame env.deflater env.rnd f.logs (f.headerFor (env.io.sees s.disk))
            (d.backlogNotice warsaw f env.utcNow) = .ok frame) :=
        fun rest => decodeBlock_encodeFrame law encoded rest
      rcases attempt_adds stores (verified f live) (assumed f live) with
        ⟨ops, result⟩ | ⟨error, u, result, -, after, nowhere⟩ | ⟨frame, encoded, after, failed | written⟩
      · rw [FileState.step_write_ok live result]
        refine ⟨[], still _ ⟨fs, t, by rw [ops]; exact stores, blocks, ?_⟩, List.Sublist.refl _,
          iff_of_true rfl (strict_ok result)⟩
        intro f' live' flag
        cases live'
        apply verified f live
        simpa only [LogFile.afterSkip, apply_ite LogFile.tailVerified, ite_self] using flag
      · rw [FileState.step_write_error live result]
        refine ⟨[], still _ ⟨fs, u, after, blocks, ?_⟩, List.Sublist.refl _, iff_of_true rfl ?_⟩
        · intro f' live' flag
          cases live'
          cases flag
        · intro f' error' live' _
          rw [live] at live'
          cases live'
          exact nowhere
      · obtain ⟨error, result, lands⟩ := failed
        rw [FileState.step_write_error live result]
        refine ⟨[_], ⟨_, [], after, List.rel_append blocks (.cons (block frame encoded) .nil), ?_⟩,
          List.nil_sublist _, iff_of_false (by simp) ?_⟩
        · intro f' live' flag
          cases live'
          cases flag
        · exact fun strict => strict f error live result lands
      · rw [FileState.step_write_ok live written]
        exact ⟨[_], ⟨_, [], after, List.rel_append blocks (.cons (block frame encoded) .nil),
          fun _ _ _ => rfl⟩, List.Sublist.refl _, iff_of_true rfl (strict_ok written)⟩

/-- A run adds the blocks of the frames it wrote, in their order, and exactly those if no failed
attempt landed. -/
theorem run_found (s : FileState) (events : List FileEvent)
    (readable : Machine.Allowed (FileState.step warsaw) (Readable warsaw inflate) s events)
    {old : List String} (found : Found inflate s old) :
    let final := Machine.run (FileState.step warsaw) s events
    ∃ texts, Found inflate final.1 (old ++ texts) ∧
      (final.2.map fun w => text w.written).Sublist texts ∧
      (texts = final.2.map (fun w => text w.written) ↔
        Machine.Allowed (FileState.step warsaw) (Strict warsaw) s events) := by
  induction events generalizing s old with
  | nil => exact ⟨[], by rwa [List.append_nil], List.Sublist.refl _, iff_of_true rfl trivial⟩
  | cons e events ih =>
    obtain ⟨first, rest⟩ := readable
    obtain ⟨added, found', frames, exact⟩ := step_found s e first found
    obtain ⟨texts, found'', frames', exact'⟩ := ih _ rest found'
    rw [List.append_assoc] at found''
    refine ⟨added ++ texts, found'', ?_, ?_⟩
    · rw [Machine.run_cons, List.map_append]
      exact frames.append frames'
    · rw [Machine.run_cons, List.map_append, append_eq_iff frames frames', exact, exact']
      rfl

/-! ## The worker -/

/-- The block reports the drops of a delivery and holds its entries. -/
def Shows (d : Delivery String) (block : String) : Prop :=
  ∃ header notice, Reports notice d.dropped.length ∧ block = frameText header notice d.delivered

theorem shows_written {attempts : AttemptEnv → Prop} {history : List (Delivery String)}
    {written : List Written} (accounts : List.Forall₂ (Account attempts) history written) :
    List.Forall₂ Shows history (written.map text) := by
  rw [List.forall₂_map_right_iff]
  refine accounts.imp fun d w account => ?_
  obtain ⟨delivered, reports, -⟩ := account
  refine ⟨w.header, w.notice, reports, ?_⟩
  rw [delivered]
  rfl

variable (warsaw inflate) (path name key : String)

/-- At this step no other `LogFile` with entries is at the file's path, and what the step does to
the file is readable. -/
def Undisturbed (s : World) (e : Event) : Prop :=
  s.worker.OnlyAt path name key ∧ Machine.Allowed (FileState.step warsaw) (Readable warsaw inflate)
    (slot path name key s) (eventsOn warsaw path name key s e)

/-- At this step no failed attempt on the file puts its whole frame on disk. -/
def NoneLands (s : World) (e : Event) : Prop :=
  Machine.Allowed (FileState.step warsaw) (Strict warsaw) (slot path name key s)
    (eventsOn warsaw path name key s e)

variable {warsaw inflate path name key}

/-- A run of the worker adds the blocks of the frames it wrote to the file. -/
theorem found_from (s : World) (events : List Event) (placed : Placed s.worker)
    (place : ∀ f, Forgetting.Located name key f → f.diskPath = path) {old : List String}
    (start : Found inflate (slot path name key s) old)
    (undisturbed : Machine.Allowed (World.step warsaw) (Undisturbed warsaw inflate path name key) s
      events) :
    let final := Machine.run (World.step warsaw) s events
    ∃ found, Found inflate (slot path name key final.1) (old ++ found) ∧
      ((framesOf name key final.2).map text).Sublist found ∧
      (found = (framesOf name key final.2).map text ↔
        Machine.Allowed (World.step warsaw) (NoneLands warsaw path name key) s events) := by
  intro final
  have alone := undisturbed.mono fun _ _ h => h.1
  have readable := (allowed_own place placed alone (Readable warsaw inflate)).mpr
    (undisturbed.mono fun _ _ h => h.2)
  obtain ⟨slot_eq, frames⟩ := run_own place placed alone
  obtain ⟨found, after, order, exact⟩ := run_found _ _ readable start
  have shown : (Machine.run (FileState.step warsaw) (slot path name key s)
      (Machine.projected (World.step warsaw) (eventsOn warsaw path name key) s events)).2.map
        (fun w => text w.written) = (framesOf name key final.2).map text := by
    rw [← frames, List.map_map]
    rfl
  rw [slot_eq] at after
  rw [shown] at order exact
  exact ⟨found, after, order, exact.trans (allowed_own place placed alone _)⟩

/-- From the worker's start, on a log file. -/
theorem found_run (disk : Disk) (events : List Event)
    (place : ∀ f, Forgetting.Located name key f → f.diskPath = path) {fs : List Bytes} {t : Bytes}
    (stores : Stores (disk path) fs t) {old : List String}
    (blocks : List.Forall₂ (Block inflate) fs old)
    (undisturbed : Machine.Allowed (World.step warsaw) (Undisturbed warsaw inflate path name key)
      ⟨.new, disk⟩ events) :
    let final := Machine.run (World.step warsaw) ⟨.new, disk⟩ events
    ∃ found, Found inflate (slot path name key final.1) (old ++ found) ∧
      ((framesOf name key final.2).map text).Sublist found ∧
      (found = (framesOf name key final.2).map text ↔
        Machine.Allowed (World.step warsaw) (NoneLands warsaw path name key) ⟨.new, disk⟩ events) :=
  found_from ⟨.new, disk⟩ events placed_new place
    ⟨fs, t, stores, blocks, fun f live => by cases live⟩ undisturbed

end Runs

/-- From `log` to the reader. The file is a log file, or there is none yet; no other `LogFile` with
entries is ever at its path and nothing deletes it. Its attempts may fail and be cut short in any
way but two: `metadata` never fails on the existing file, and no creation leaves a part of the
magic only. Whenever the tail is checked the file is within the check's limit, the compressed
payloads are below `2 ^ 35` bytes, and the reader undoes the compressor. Then a reader finds at
any moment the blocks there were and, in order, a block for each delivery from the file's queue:
the entries routed to the file are, in order, what each block reports as dropped and what
it holds, then what is dropped and not yet reported, then what is still queued. The reader finds
each of these blocks once exactly if no attempt that failed had put its whole frame on disk. -/
theorem logged_entries_are_read_back (warsaw : DateTimeUtc → LocalDateTime)
    (inflate : Bytes → Option Bytes) {path name key : String} (disk : Disk) (events : List Event)
    (place : ∀ f, Forgetting.Located name key f → f.diskPath = path) {fs : List Bytes} {t : Bytes}
    (stores : Stores (disk path) fs t) {old : List String}
    (blocks : List.Forall₂ (Block inflate) fs old)
    (undisturbed : Machine.Allowed (World.step warsaw) (Undisturbed warsaw inflate path name key)
      ⟨.new, disk⟩ events) :
    let final := Machine.run (World.step warsaw) ⟨.new, disk⟩ events
    ∃ gs u found shown, ∃ q : DropQueue String,
      Stores (final.1.disk path) gs u ∧
      decodeOplogFile inflate (MAGIC ++ gs.flatten) = some (old ++ found) ∧
      (∀ f, final.1.worker.file? name key = some f → f.tailVerified = true → u = []) ∧
      q.entries = routed name key final.2 ∧
      q.queue = (final.1.worker.file? name key).elim [] (·.logs) ∧
      q.dropped.length = (final.1.worker.file? name key).elim 0 (·.droppedLogs) ∧
      List.Forall₂ Shows q.history shown ∧ shown.Sublist found ∧
      (found = shown ↔ Machine.Allowed (World.step warsaw) (NoneLands warsaw path name key)
        ⟨.new, disk⟩ events) := by
  intro final
  obtain ⟨found, ⟨gs, u, stores', blocks', verified⟩, order, exact⟩ :=
    found_run disk events place stores blocks undisturbed
  obtain ⟨q, entries, history, queue, dropped, -⟩ := run_balanced warsaw disk events name key
  exact ⟨gs, u, found, _, q, stores', decode_blocks blocks' stores'.complete, verified, entries,
    queue, dropped, shows_written history, order, exact⟩

/-! ## A run with a torn frame -/

/-- An attempt that is cut short inside its frame, and one that succeeds behind it. -/
def tornOnce : List Event :=
  [TwoWorkers.entry "logs" "one" 0, TwoWorkers.tick fun _ => TwoWorkers.cutShort,
    TwoWorkers.tick fun _ => allDone]

/-- Where the entries of `app` go without a date. -/
theorem app_place (f : LogFile) (located : Forgetting.Located "app" "logs/app.log" f) :
    f.diskPath = "logs/app.log" := by
  have there : Forgetting.Located "app" "logs/app.log" (LogDefinition.getLogFile
      (plainDefinition "") none "app.log" "logs" 0) := ⟨by decide, by decide⟩
  obtain ⟨path, logName⟩ := located.unique there
  rw [LogFile.diskPath_congr path logName]
  decide +kernel

/-- Nothing else is listed at the path. -/
theorem onlyAt_of_listed {w : OpLogWorker} {path name key : String}
    (listed : ∀ place ∈ w.queuedPaths, place.2 = path → place.1 = (name, key)) :
    w.OnlyAt path name key := by
  intro name' key' f live there queued
  have same := listed _ (OpLogWorker.mem_queuedPaths live queued) there
  exact ⟨congrArg Prod.fst same, congrArg Prod.snd same⟩

theorem undisturbed_entry {path name key : String} (s : World) (dir text : String) (now : Instant)
    (alone : s.worker.OnlyAt path name key) :
    Undisturbed warsawAtEpoch inflateStored path name key s (TwoWorkers.entry dir text now) := by
  refine ⟨alone, Machine.allowed_of_forall _ _ ?_⟩
  intro e member s'
  unfold eventsOn deletion TwoWorkers.entry at member
  rw [List.append_nil] at member
  obtain ⟨op, listed, rfl⟩ := List.mem_map.mp member
  obtain ⟨d, r, rfl⟩ := queue_of_logs listed
  trivial

theorem readable_pass {path : String} (name key : String) (s : World) (interval : LogDefinition → Duration)
    (io : WriteIo) (came : io.metadata = .ready (.ok ())) (magic : io.magic = .done)
    (small : (s.disk path).elim 0 List.length ≤ 1000) :
    Machine.Allowed (FileState.step warsawAtEpoch) (Readable warsawAtEpoch inflateStored)
      (slot path name key s) ((s.worker.passOps warsawAtEpoch name key interval
        (TwoWorkers.answers fun _ => io) s.disk).map event) := by
  unfold OpLogWorker.passOps
  cases s.worker.definitions.get? name with
  | none => trivial
  | some d =>
    refine ⟨⟨storedDeflater_inflates, ?_⟩, trivial⟩
    exact fun f _ _ => assumed_of_done f _ io _ came magic small

theorem undisturbed_tick {path name key : String} (s : World) (io : WriteIo)
    (alone : s.worker.OnlyAt path name key) (came : io.metadata = .ready (.ok ()))
    (magic : io.magic = .done) (small : (s.disk path).elim 0 List.length ≤ 1000) :
    Undisturbed warsawAtEpoch inflateStored path name key s (TwoWorkers.tick fun _ => io) := by
  have pass := readable_pass name key s (·.flushInterval) io came magic small
  refine ⟨alone, ?_⟩
  unfold TwoWorkers.tick eventsOn deletion
  rw [List.append_nil]
  exact pass

theorem logged_entries_are_read_back_torn :
    let final := Machine.run (World.step warsawAtEpoch) TwoWorkers.start tornOnce
    ∃ gs u found shown, ∃ q : DropQueue String,
      Stores (final.1.disk "logs/app.log") gs u ∧
      decodeOplogFile inflateStored (MAGIC ++ gs.flatten) = some ([] ++ found) ∧
      (∀ f, final.1.worker.file? "app" "logs/app.log" = some f → f.tailVerified = true → u = []) ∧
      q.entries = routed "app" "logs/app.log" final.2 ∧
      q.queue = (final.1.worker.file? "app" "logs/app.log").elim [] (·.logs) ∧
      q.dropped.length = (final.1.worker.file? "app" "logs/app.log").elim 0 (·.droppedLogs) ∧
      List.Forall₂ Shows q.history shown ∧ shown.Sublist found ∧
      (found = shown ↔ Machine.Allowed (World.step warsawAtEpoch)
        (NoneLands warsawAtEpoch "logs/app.log" "app" "logs/app.log") TwoWorkers.start tornOnce) := by
  exact logged_entries_are_read_back warsawAtEpoch inflateStored (fun _ => none) tornOnce app_place
    .absent .nil ⟨undisturbed_entry _ _ _ _ (onlyAt_of_listed (by decide +kernel)),
      undisturbed_tick _ _ (onlyAt_of_listed (by decide +kernel)) rfl rfl (by decide +kernel),
      undisturbed_tick _ _ (onlyAt_of_listed (by decide +kernel)) rfl rfl (by decide +kernel), trivial⟩

end OpLog.Guarantees.ReadBack
