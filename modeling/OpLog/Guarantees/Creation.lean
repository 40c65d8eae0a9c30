import OpLog.Format.Attempt
import OpLog.Guarantees.OneFile

/-!
# A creation that was cut short

The first `k` bytes of the magic and the first frame are on disk, and the next attempt
goes through. Cut inside the magic the file keeps its partial magic for good: it is not
empty, so it is not created anew, and too short for the tail check to judge. Cut inside the
frame it is repaired, unless the tail check passes the file over: for its length, or for a
size field of more than five bytes.
-/
namespace OpLog.Guarantees.Creation
open Library Library.FrameStream Format Source

/-- When the attempt after a creation that was cut at `k` leaves a log file. -/
def Recoverable (k : Nat) (frame : EncodedFrame) (io : WriteIo) : Prop :=
  (∃ e, io.metadata = .ready (.error e)) ∨ k = 0 ∨ (MAGIC ++ frame.bytes).length ≤ k ∨
    (MAGIC.length ≤ k ∧ k ≤ TAIL_CHECK_MAX_LEN ∧
      (frame.payload.length < 2 ^ 35 ∨ k < MAGIC.length + 8))

/-- Complete frames behind the magic, the given one last. -/
def EndsWith (content : Option Bytes) (last : Bytes) : Prop :=
  ∃ fs, Complete Frame fs ∧ content = some (MAGIC ++ (fs ++ [last]).flatten)

/-- The disk after an attempt that succeeded on `content`. -/
theorem attempt_written {f f' : LogFile} {flushInterval : Duration} {notice : Option String}
    {env : AttemptEnv} {content : Option Bytes} {w : Written}
    (success : (f.writeToFile flushInterval notice env content).result = .ok (f', some w)) :
    env.io.cameBack ∧ Frame w.frame.bytes ∧
      applyOps (f.writeToFile flushInterval notice env content).ops content =
        (applyOps (f.openOps content (env.io.sees content)) content).map (· ++ w.frame.bytes) := by
  have outcome := writeToFile_outcome f flushInterval notice env content
  generalize (f.writeToFile flushInterval notice env content).ops = ops at outcome ⊢
  rw [success] at outcome
  cases outcome with
  | written frame due came opened encoded =>
    refine ⟨came, (encodeFrame_frame encoded).1, ?_⟩
    rw [applyOps_append]
    cases applyOps (f.openOps content (env.io.sees content)) content with
    | none => rfl
    | some c =>
      rw [applyOps_appends]
      simp [EncodedFrame.bytes]

/-! ## Where the cut lies -/

/-- Cut inside the magic: what stands there is not the magic, and never becomes it. -/
theorem inside_magic (f : LogFile) {k : Nat} (inside : k < MAGIC.length) (last : Bytes)
    (hl : Frame last) :
    f.tailOps (MAGIC.take k) = [] ∧ ∀ rest, MAGIC.take k ++ last ≠ MAGIC ++ rest := by
  constructor
  · apply tailOps_none
    apply truncatedFrameStart_foreign
    intro same
    have := congrArg List.length same
    simp only [List.length_take] at this
    omega
  · obtain ⟨rnd, sum, size, payload, rfl, -⟩ := hl
    intro rest same
    have marker := congrArg (fun xs => xs[k]?) same
    have ascii : ∀ i < 10, MAGIC[i]? ≠ some 0xff := by decide
    have cut : (MAGIC.take k).length = k := List.length_take_of_le (Nat.le_of_lt inside)
    simp only [List.getElem?_append_left inside] at marker
    rw [List.getElem?_append_right (Nat.le_of_eq cut), cut, Nat.sub_self] at marker
    exact ascii k inside marker.symm

/-- A torn frame that is not cut off is there to stay. -/
theorem stuck {t last : Bytes} (torn : Torn Frame t) :
    ¬ EndsWith (some (MAGIC ++ t ++ last)) last := by
  intro ends
  obtain ⟨fs, complete, same⟩ := ends
  apply torn_append_not_complete frame_code torn fs [last] complete
  simpa using Option.some.inj same

section Opened
variable {f : LogFile} (unverified : f.tailVerified = false) {deflater : Deflater} {rnd : UInt8}
  {logs : List String} {header notice : Option String} {frame : EncodedFrame}
  (encoded : encodeFrame deflater rnd logs header notice = .ok frame)
include unverified encoded

/-- Cut inside the frame, behind `n` bytes of it: the repair removes them if the check
looks at the file and can tell the torn frame for one. -/
theorem opened_inside {n : Nat} (some_bytes : 0 < n) (inside : n < frame.bytes.length)
    (last : Bytes) :
    EndsWith ((applyOps (f.tailOps (MAGIC ++ frame.bytes.take n))
        (some (MAGIC ++ frame.bytes.take n))).map (· ++ last)) last ↔
      MAGIC.length + n ≤ TAIL_CHECK_MAX_LEN ∧ (frame.payload.length < 2 ^ 35 ∨ n < 8) := by
  obtain ⟨hf, possible⟩ := encodeFrame_frame encoded
  have torn := torn_take hf some_bytes inside
  have length : (MAGIC ++ frame.bytes.take n).length = MAGIC.length + n := by
    rw [List.length_append, List.length_take_of_le (Nat.le_of_lt inside)]
  have kept (h : f.tailOps (MAGIC ++ frame.bytes.take n) = []) :
      ¬ EndsWith ((applyOps (f.tailOps (MAGIC ++ frame.bytes.take n))
        (some (MAGIC ++ frame.bytes.take n))).map (· ++ last)) last := by
    rw [h, applyOps_nil, Option.map_some]
    exact stuck torn
  by_cases long : TAIL_CHECK_MAX_LEN < MAGIC.length + n
  · exact iff_of_false (kept (tailOps_long f (by rwa [length]))) (by omega)
  · have cut (h : Torn PossibleFrame (frame.bytes.take n)) :
        EndsWith ((applyOps (f.tailOps (MAGIC ++ frame.bytes.take n))
          (some (MAGIC ++ frame.bytes.take n))).map (· ++ last)) last := by
      have repaired := tailOps_exact f [] _ (complete_nil _) (Or.inr h)
        (fun flag => by rw [unverified] at flag; cases flag)
        (fun _ => by simpa only [List.flatten_nil, List.nil_append, length] using Nat.not_lt.mp long)
      simp only [List.flatten_nil, List.nil_append, List.append_nil] at repaired
      rw [repaired]
      exact ⟨[], complete_nil _, by simp⟩
    by_cases fits : frame.payload.length < 2 ^ 35
    · exact iff_of_true (cut (torn_take (possible fits) some_bytes inside)) ⟨by omega, Or.inl fits⟩
    · by_cases early : n < 8
      · refine iff_of_true (cut (torn_short torn ?_)) ⟨by omega, Or.inr early⟩
        rw [List.length_take]
        omega
      · have impossible : ¬ PossibleFrame frame.bytes :=
          fun h => fits (encodeFrame_payload_lt encoded h)
        have unreported := truncatedFrameStart_oversized hf impossible n (Nat.not_lt.mp early)
        exact iff_of_false (kept (tailOps_none f unreported)) (by omega)

/-- What the opening makes of a file cut at `k`, when `metadata` sees content there: the
next frame goes behind complete frames exactly under the conditions above. -/
theorem opened_iff {k : Nat} (some_bytes : 0 < k) {last : Bytes} (hl : Frame last) :
    EndsWith ((applyOps (f.tailOps ((MAGIC ++ frame.bytes).take k))
        (some ((MAGIC ++ frame.bytes).take k))).map (· ++ last)) last ↔
      (MAGIC ++ frame.bytes).length ≤ k ∨ (MAGIC.length ≤ k ∧ k ≤ TAIL_CHECK_MAX_LEN ∧
        (frame.payload.length < 2 ^ 35 ∨ k < MAGIC.length + 8)) := by
  obtain ⟨hf, -⟩ := encodeFrame_frame encoded
  by_cases inside : k < MAGIC.length
  · obtain ⟨untouched, never⟩ := inside_magic f inside last hl
    rw [List.take_append_of_le_length (Nat.le_of_lt inside), untouched, applyOps_nil,
      Option.map_some]
    refine iff_of_false ?_ (by rw [List.length_append]; omega)
    intro ends
    obtain ⟨fs, -, same⟩ := ends
    exact never _ (Option.some.inj same)
  · obtain ⟨n, rfl⟩ := Nat.exists_eq_add_of_le (Nat.not_lt.mp inside)
    rw [List.take_length_add_append, List.length_append]
    by_cases whole : frame.bytes.length ≤ n
    · have one : Complete Frame [frame.bytes] := complete_cons.mpr ⟨hf, complete_nil _⟩
      obtain ⟨m, stays⟩ := tailOps_keeps f [frame.bytes] [] one
      simp only [List.flatten_cons, List.flatten_nil, List.append_nil, List.take_nil] at stays
      rw [List.take_of_length_le whole, stays]
      exact iff_of_true ⟨[frame.bytes], one, by simp⟩ (Or.inl (by omega))
    · by_cases boundary : n = 0
      · obtain ⟨m, stays⟩ := tailOps_keeps f [] [] (complete_nil _)
        simp only [List.flatten_nil, List.append_nil, List.take_nil] at stays
        rw [boundary, List.take_zero, List.append_nil, stays]
        exact iff_of_true ⟨[], complete_nil _, by simp⟩
          (Or.inr ⟨by omega, by decide, Or.inr (by omega)⟩)
      · rw [opened_inside unverified encoded (by omega) (Nat.not_le.mp whole)]
        omega

end Opened

/-! ## From the cut to the next attempt -/

/-- Events that neither write nor delete the file. -/
def Quiet : FileEvent → Prop
  | .write .. => False
  | .delete => False
  | _ => True

def Unverified (s : FileState) : Prop := ∀ f, s.live = some f → f.tailVerified = false

/-- Between the attempts entries may be queued and the `LogFile` may be a fresh one; the
file stays as it is and the flag stays unset. -/
theorem quiet_run (warsaw : DateTimeUtc → LocalDateTime) (s : FileState) (unverified : Unverified s)
    (events : List FileEvent) (quiet : ∀ event ∈ events, Quiet event) :
    let final := Machine.run (FileState.step warsaw) s events
    final.1.disk = s.disk ∧ Unverified final.1 ∧ final.2 = [] := by
  induction events generalizing s with
  | nil => exact ⟨rfl, unverified, rfl⟩
  | cons event events ih =>
    have one : (s.step warsaw event).1.disk = s.disk ∧ Unverified (s.step warsaw event).1 ∧
        (s.step warsaw event).2 = [] := by
      have allowed := quiet event List.mem_cons_self
      cases event with
      | write => exact absurd allowed id
      | delete => exact absurd allowed id
      | queue d logName path log now =>
        refine ⟨rfl, ?_, rfl⟩
        intro f live
        cases live
        rw [FileState.queue_tailVerified]
        cases before : s.live with
        | none => rfl
        | some f => exact unverified f before
      | cleanUp now =>
        exact ⟨rfl, fun f live => unverified f (Option.filter_eq_some_iff.mp live).1, rfl⟩
      | restart => exact ⟨rfl, (fun _ h => by cases h), rfl⟩
    obtain ⟨disk, flag, none⟩ := ih _ one.2.1 (fun e member => quiet e (List.mem_cons_of_mem _ member))
    simp only [Machine.run_cons]
    exact ⟨disk.trans one.1, flag, by rw [one.2.2, none, List.append_nil]⟩

/-- A successful attempt on a file cut at `k`. -/
theorem next_attempt_iff {f f' : LogFile} (unverified : f.tailVerified = false)
    {flushInterval : Duration} {notice notice' header : Option String} {env : AttemptEnv}
    {deflater : Deflater} {rnd : UInt8} {logs : List String} {frame : EncodedFrame} {w : Written}
    (encoded : encodeFrame deflater rnd logs header notice = .ok frame) (k : Nat)
    (success : (f.writeToFile flushInterval notice' env (some ((MAGIC ++ frame.bytes).take k))).result =
      .ok (f', some w)) :
    EndsWith (applyOps (f.writeToFile flushInterval notice' env
        (some ((MAGIC ++ frame.bytes).take k))).ops (some ((MAGIC ++ frame.bytes).take k)))
        w.frame.bytes ↔ Recoverable k frame env.io := by
  obtain ⟨came, hw, disk⟩ := attempt_written success
  rw [disk]
  cases sees : env.io.sees (some ((MAGIC ++ frame.bytes).take k)) with
  | false =>
    apply iff_of_true ⟨[], complete_nil _, by simp [LogFile.openOps, DiskOp.apply]⟩
    by_cases nothing : k = 0
    · exact Or.inr (Or.inl nothing)
    · refine Or.inl (metadata_failed came ?_ sees)
      simp [MAGIC, nothing]
  | true =>
    obtain ⟨c, is, some_bytes⟩ := content_of_sees sees
    have positive : 0 < k := by
      cases Option.some.inj is
      apply Nat.pos_of_ne_zero
      rintro rfl
      exact some_bytes rfl
    have worked : ¬ ∃ e, env.io.metadata = .ready (.error e) := by
      intro refused
      obtain ⟨e, failed⟩ := refused
      simp [WriteIo.sees, failed, hasContent] at sees
    unfold LogFile.openOps
    rw [if_pos rfl, Option.getD_some, opened_iff unverified encoded positive hw]
    unfold Recoverable
    simp only [worked, false_or, Nat.pos_iff_ne_zero.mp positive]

/-- A creating write fails with exactly the first `k` bytes of magic and frame on disk;
later, through the same `LogFile` or a fresh one, an attempt succeeds. The file then is the
magic and complete frames, the new one last, if and only if the cut was recoverable. -/
theorem cut_creation_recovers_iff (warsaw : DateTimeUtc → LocalDateTime) (s : FileState) (f : LogFile)
    (live : s.live = some f) (d d' : LogDefinition) (flushInterval flushInterval' : Duration)
    (env env' : AttemptEnv) (frame : EncodedFrame) (e : IoError) (k : Nat)
    (encoded : encodeFrame env.deflater env.rnd f.logs (f.headerFor false)
      (d.backlogNotice warsaw f env.utcNow) = .ok frame)
    (failed : (FileState.attempt warsaw f d flushInterval env s.disk).result = .error e)
    (cut : (s.step warsaw (.write d flushInterval env)).1.disk = some ((MAGIC ++ frame.bytes).take k))
    (between : List FileEvent) (quiet : ∀ event ∈ between, Quiet event) (w : FileWrite)
    (success : (Machine.run (FileState.step warsaw) s
      (.write d flushInterval env :: between ++ [.write d' flushInterval' env'])).2 = [w]) :
    EndsWith (Machine.run (FileState.step warsaw) s
      (.write d flushInterval env :: between ++ [.write d' flushInterval' env'])).1.disk
      w.written.frame.bytes ↔ Recoverable k frame env'.io := by
  have first := FileState.step_write_error (d := d) live failed
  have unverified : Unverified (s.step warsaw (.write d flushInterval env)).1 := by
    intro f' live'
    rw [first] at live'
    cases live'
    rfl
  have silent : (s.step warsaw (.write d flushInterval env)).2 = [] := by rw [first]
  obtain ⟨disk, flag, none⟩ := quiet_run warsaw _ unverified between quiet
  rw [cut] at disk
  simp only [List.cons_append, Machine.run_cons, Machine.run_append, silent, none, List.nil_append,
    Machine.run_nil, List.append_nil] at success ⊢
  generalize (Machine.run (FileState.step warsaw) (s.step warsaw (.write d flushInterval env)).1
    between).1 = t at *
  cases next : t.live with
  | none => simp [FileState.step, next] at success
  | some g =>
    cases result : (FileState.attempt warsaw g d' flushInterval' env' t.disk).result with
    | error e' =>
      rw [FileState.step_write_error next result] at success
      cases success
    | ok out =>
      obtain ⟨g', written⟩ := out
      rw [FileState.step_write_ok next result] at success ⊢
      cases written with
      | none => cases success
      | some written =>
        simp only [Option.toList_some, List.map_cons, List.map_nil, List.cons.injEq,
          and_true] at success
        subst success
        dsimp only [FileState.attempt] at result ⊢
        rw [disk] at result ⊢
        exact next_attempt_iff (flag g next) encoded k result

/-- Three bytes of the magic reach the disk, and the next attempt succeeds. -/
def cutInMagic : List FileEvent :=
  [.queue (plainDefinition "") "a.log" "logs" "entry" 0,
   .write (plainDefinition "") 0 (storedEnv { allDone with magic := .failed .storageFull 3 }),
   .write (plainDefinition "") 0 (storedEnv allDone)]

/-- The frame is behind the three bytes, in a file without its magic. -/
theorem cut_in_magic_stays :
    let final := Machine.run (FileState.step warsawAtEpoch) (.start none) cutInMagic
    final.2.length = 1 ∧ ∀ last, ¬ EndsWith final.1.disk last := by
  refine ⟨by decide +kernel, ?_⟩
  intro last ends
  obtain ⟨fs, -, same⟩ := ends
  have magic := congrArg (fun content => content.map (·.take 10)) same
  have foreign : ((Machine.run (FileState.step warsawAtEpoch) (.start none) cutInMagic).1.disk).map
      (·.take 10) ≠ some MAGIC := by decide +kernel
  apply foreign
  rw [magic, Option.map_some, ← magic_length, List.take_left]

/-- Two bytes of the first frame reach the disk, and a new worker goes on. -/
def cutInFrame : AttemptEnv := storedEnv { allDone with framePrefix := .failed .storageFull 2 }

def queuedLogFile (log : String) : LogFile :=
  ((plainDefinition "").getLogFile none "a.log" "logs" 0).addToLog log 0

def firstFrame : EncodedFrame :=
  ⟨[255, 7, 251, 212],
    [192, 206, 161, 161, 8, 6, 15, 178, 54, 91, 50, 126, 162, 87, 60, 53, 197], 1⟩

def laterAttempt : List FileEvent :=
  [.restart, .queue (plainDefinition "") "a.log" "logs" "later" 0]

theorem cut_creation_recovers_in_frame :
    ∃ last, EndsWith (Machine.run (FileState.step warsawAtEpoch) ⟨some (queuedLogFile "entry"), none⟩
      (.write (plainDefinition "") 0 cutInFrame :: laterAttempt ++
        [.write (plainDefinition "") 0 (storedEnv allDone)])).1.disk last := by
  have one : (Machine.run (FileState.step warsawAtEpoch) ⟨some (queuedLogFile "entry"), none⟩
      (.write (plainDefinition "") 0 cutInFrame :: laterAttempt ++
        [.write (plainDefinition "") 0 (storedEnv allDone)])).2.length = 1 := by decide +kernel
  obtain ⟨w, success⟩ := List.length_eq_one_iff.mp one
  have quiet : ∀ event ∈ laterAttempt, Quiet event := by simp [laterAttempt, Quiet]
  refine ⟨w.written.frame.bytes, (cut_creation_recovers_iff warsawAtEpoch _ (queuedLogFile "entry") rfl
    (plainDefinition "") (plainDefinition "") 0 0 cutInFrame (storedEnv allDone) firstFrame
    .storageFull 12 (by decide +kernel) (by decide +kernel) (by decide +kernel) laterAttempt quiet w
    success).mpr ?_⟩
  exact Or.inr (Or.inr (Or.inr ⟨by decide, by decide, Or.inl (by decide)⟩))

end OpLog.Guarantees.Creation
