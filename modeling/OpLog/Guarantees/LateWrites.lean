import OpLog.Format.LateAttempt
import OpLog.Guarantees.OneFile

/-!
# Late bytes over whole runs

The life of one file when bytes of others land at its end at any time, between the steps and in
the middle of attempts: what a write that timed out still writes in the background, and whatever
else appends to the file. A settled content stays where it is whatever lands and whatever the
attempts do, and only a settled one does (`settled_iff_never_cut`).
-/
namespace OpLog.Guarantees.LateWrites
open Library Library.FrameStream Format Source

inductive LateEvent where
  | event (e : FileEvent)
  /-- the attempt of a `FileEvent.write`, with bytes landing in it -/
  | write (d : LogDefinition) (flushInterval : Duration) (env : AttemptEnv) (others : Others)
  | land (bytes : Bytes)

/-- `gone` is a file deleted or created anew: what stood in it is no longer there to keep. -/
inductive LateOutput where
  | wrote (w : FileWrite)
  | gone
  deriving DecidableEq, Repr

section Warsaw
variable (warsaw : DateTimeUtc → LocalDateTime)

def attemptAmong (f : LogFile) (d : LogDefinition) (flushInterval : Duration) (env : AttemptEnv)
    (others : Others) (disk : Option Bytes) : Effect (LogFile × Option Written) :=
  f.writeToFileAmong flushInterval (d.backlogNotice warsaw f env.utcNow) env others disk

/-- An attempt that creates the file leaves nothing of what stood there. -/
def anew (ops : List DiskOp) : List LateOutput := if .create ∈ ops then [.gone] else []

def writeAmong (s : FileState) (d : LogDefinition) (flushInterval : Duration) (env : AttemptEnv)
    (others : Others) : FileState × List LateOutput :=
  match s.live with
  | none => (s, [])
  | some f =>
    let write := attemptAmong warsaw f d flushInterval env others s.disk
    let disk := applyOps write.ops s.disk
    match write.result with
    | .ok (f', written) =>
      (⟨some { f' with writeErrorLogged := false }, disk⟩,
        anew write.ops ++ written.toList.map fun w => .wrote ⟨s.disk, w, disk⟩)
    | .error _ =>
      (⟨some { f with tailVerified := false, writeErrorLogged := true }, disk⟩, anew write.ops)

def step (s : FileState) : LateEvent → FileState × List LateOutput
  | .write d flushInterval env others => writeAmong warsaw s d flushInterval env others
  | .event (.write d flushInterval env) => writeAmong warsaw s d flushInterval env .none
  | .event .delete => ((s.step warsaw .delete).1, [.gone])
  | .event e => ((s.step warsaw e).1, [])
  | .land bytes => ({ s with disk := s.disk.map (· ++ bytes) }, [])

theorem wrote_not_anew (w : FileWrite) (ops : List DiskOp) : .wrote w ∉ anew ops := by
  unfold anew
  split <;> simp

section Attempt
variable {warsaw} {s : FileState} {f f' : LogFile} {d : LogDefinition} {flushInterval : Duration}
  {env : AttemptEnv} {others : Others}

theorem writeAmong_ok {written : Option Written} (live : s.live = some f)
    (h : (attemptAmong warsaw f d flushInterval env others s.disk).result = .ok (f', written)) :
    let ops := (attemptAmong warsaw f d flushInterval env others s.disk).ops
    writeAmong warsaw s d flushInterval env others =
      (⟨some { f' with writeErrorLogged := false }, applyOps ops s.disk⟩,
        anew ops ++ written.toList.map fun w => .wrote ⟨s.disk, w, applyOps ops s.disk⟩) := by
  unfold writeAmong
  simp only [live, h]

theorem writeAmong_error {e : IoError} (live : s.live = some f)
    (h : (attemptAmong warsaw f d flushInterval env others s.disk).result = .error e) :
    let ops := (attemptAmong warsaw f d flushInterval env others s.disk).ops
    writeAmong warsaw s d flushInterval env others =
      (⟨some { f with tailVerified := false, writeErrorLogged := true }, applyOps ops s.disk⟩,
        anew ops) := by
  unfold writeAmong
  simp only [live, h]

end Attempt

/-! ## Without others -/

def LateOutput.write? : LateOutput → Option FileWrite
  | .wrote w => some w
  | .gone => none

theorem writes_anew (ops : List DiskOp) : (anew ops).filterMap LateOutput.write? = [] := by
  unfold anew
  split <;> simp [LateOutput.write?]

theorem writeAmong_none (s : FileState) (d : LogDefinition) (flushInterval : Duration)
    (env : AttemptEnv) :
    (writeAmong warsaw s d flushInterval env .none).1 =
        (s.step warsaw (.write d flushInterval env)).1 ∧
      (writeAmong warsaw s d flushInterval env .none).2.filterMap LateOutput.write? =
        (s.step warsaw (.write d flushInterval env)).2 := by
  cases live : s.live with
  | none =>
    unfold writeAmong FileState.step
    simp [live]
  | some f =>
    have same : attemptAmong warsaw f d flushInterval env .none s.disk =
        FileState.attempt warsaw f d flushInterval env s.disk := writeToFileAmong_none f _ _ env _
    cases result : (FileState.attempt warsaw f d flushInterval env s.disk).result with
    | error e =>
      rw [writeAmong_error live (by rw [same]; exact result), FileState.step_write_error live result, same]
      exact ⟨rfl, writes_anew _⟩
    | ok ended =>
      obtain ⟨f', written⟩ := ended
      rw [writeAmong_ok live (by rw [same]; exact result), FileState.step_write_ok live result, same,
        List.filterMap_append, writes_anew]
      cases written <;> simp [LateOutput.write?]

/-- Where nothing of others lands, this is the machine of one file. -/
theorem step_event (s : FileState) (e : FileEvent) :
    (step warsaw s (.event e)).1 = (s.step warsaw e).1 ∧
      (step warsaw s (.event e)).2.filterMap LateOutput.write? = (s.step warsaw e).2 := by
  cases e with
  | write d flushInterval env => exact writeAmong_none warsaw s d flushInterval env
  | queue d logName path log now => exact ⟨rfl, rfl⟩
  | cleanUp now => exact ⟨rfl, rfl⟩
  | restart => exact ⟨rfl, rfl⟩
  | delete => exact ⟨rfl, rfl⟩

theorem run_events (s : FileState) (events : List FileEvent) :
    (Machine.run (step warsaw) s (events.map .event)).1 =
        (Machine.run (FileState.step warsaw) s events).1 ∧
      (Machine.run (step warsaw) s (events.map .event)).2.filterMap LateOutput.write? =
        (Machine.run (FileState.step warsaw) s events).2 := by
  induction events generalizing s with
  | nil => exact ⟨rfl, rfl⟩
  | cons e events ih =>
    obtain ⟨state, writes⟩ := step_event warsaw s e
    obtain ⟨state', writes'⟩ := ih (s.step warsaw e).1
    rw [List.map_cons, Machine.run_cons, Machine.run_cons, state, List.filterMap_append, writes, writes']
    exact ⟨state', rfl⟩

/-! ## Settled contents -/

theorem writeAmong_keeps {kept : Bytes} (settled : Settled kept) (s : FileState) (d : LogDefinition)
    (flushInterval : Duration) (env : AttemptEnv) (others : Others) (more : Bytes)
    (here : s.disk = some (kept ++ more))
    (stays : .gone ∉ (writeAmong warsaw s d flushInterval env others).2) :
    ∃ behind, (writeAmong warsaw s d flushInterval env others).1.disk = some (kept ++ behind) := by
  cases live : s.live with
  | none =>
    refine ⟨more, ?_⟩
    unfold writeAmong
    rw [live]
    exact here
  | some f =>
    have behind (fresh : .create ∉ (attemptAmong warsaw f d flushInterval env others s.disk).ops) :
        ∃ behind, applyOps (attemptAmong warsaw f d flushInterval env others s.disk).ops s.disk =
          some (kept ++ behind) := by
      unfold attemptAmong at fresh ⊢
      rw [here] at fresh ⊢
      exact attemptAmong_keeps settled f flushInterval _ env others more fresh
    have fresh {ops : List DiskOp} {outs : List LateOutput} (stays : .gone ∉ anew ops ++ outs) :
        .create ∉ ops := by
      intro created
      apply stays
      simp [anew, created]
    cases result : (attemptAmong warsaw f d flushInterval env others s.disk).result with
    | error e =>
      rw [writeAmong_error live result] at stays ⊢
      rw [← List.append_nil (anew _)] at stays
      exact behind (fresh stays)
    | ok ended =>
      rw [writeAmong_ok live result] at stays ⊢
      exact behind (fresh stays)

theorem step_keeps {kept : Bytes} (settled : Settled kept) (s : FileState) (e : LateEvent)
    (more : Bytes) (here : s.disk = some (kept ++ more)) (stays : .gone ∉ (step warsaw s e).2) :
    ∃ behind, (step warsaw s e).1.disk = some (kept ++ behind) := by
  cases e with
  | write d flushInterval env others =>
    exact writeAmong_keeps warsaw settled s d flushInterval env others more here stays
  | land bytes =>
    refine ⟨more ++ bytes, ?_⟩
    simp [step, here]
  | event e =>
    cases e with
    | write d flushInterval env =>
      exact writeAmong_keeps warsaw settled s d flushInterval env .none more here stays
    | queue d logName path log now => exact ⟨more, here⟩
    | cleanUp now => exact ⟨more, here⟩
    | restart => exact ⟨more, here⟩
    | delete => exact absurd (List.mem_singleton.mpr rfl) stays

theorem run_keeps {kept : Bytes} (settled : Settled kept) (s : FileState) (events : List LateEvent)
    (more : Bytes) (here : s.disk = some (kept ++ more))
    (stays : .gone ∉ (Machine.run (step warsaw) s events).2) :
    ∃ behind, (Machine.run (step warsaw) s events).1.disk = some (kept ++ behind) := by
  induction events generalizing s more with
  | nil => exact ⟨more, here⟩
  | cons e events ih =>
    rw [Machine.run_cons] at stays ⊢
    simp only [List.mem_append, not_or] at stays
    obtain ⟨behind, there⟩ := step_keeps warsaw settled s e more here stays.1
    exact ih _ behind there stays.2

/-- Every call up to the opening for appending succeeds. -/
def refusedAppend : AttemptEnv := storedEnv { allDone with openAppend := .error .permissionDenied }

theorem refusedAppend_open {f : LogFile} (unverified : f.tailVerified = false) {content : Bytes}
    {p : Nat} (short : content.length ≤ TAIL_CHECK_MAX_LEN)
    (found : truncatedFrameStart ⟨content, 0⟩ content.length = .ok (some p)) :
    f.openFile refusedAppend.io (some content) true = ⟨[.setLen p], .error .permissionDenied⟩ := by
  have check : cutInterruptedTailUpTo allDone.tail content content TAIL_CHECK_MAX_LEN =
      ⟨[.setLen p], .ok ()⟩ := by
    unfold cutInterruptedTailUpTo
    simp only [allDone, if_neg (Nat.not_lt.mpr short), found, Effect.call, Effect.bind_eq, setLen,
      ne_eq, not_true_eq_false, if_false, List.nil_append]
  have joined : cutInterruptedTail refusedAppend.io.tail content = ⟨[.setLen p], .ok ()⟩ := by
    unfold cutInterruptedTail
    rw [show refusedAppend.io.tail = allDone.tail from rfl, check]
    rfl
  unfold LogFile.openFile
  simp only [if_true, unverified, Bool.false_eq_true, if_false, Option.getD_some, joined,
    Effect.bind_eq]
  rfl

theorem refusedAppend_cuts {f : LogFile} (queued : f.logs ≠ []) (due : f.early 0 0 = false)
    (unverified : f.tailVerified = false) (notice : Option String) {content : Bytes} {p : Nat}
    (short : content.length ≤ TAIL_CHECK_MAX_LEN)
    (found : truncatedFrameStart ⟨content, 0⟩ content.length = .ok (some p)) :
    f.writeToFile 0 notice refusedAppend (some content) =
      ⟨[.setLen p], .error .permissionDenied⟩ := by
  have has : hasContent (.ok ()) (some content) = true := by
    obtain ⟨fs, t, rfl, -⟩ := (truncatedFrameStart_iff content p).mp found
    simp [hasContent, MAGIC]
  have awaits : refusedAppend.io.createDirAll = .ready (.ok ()) ∧
      refusedAppend.io.metadata = .ready (.ok ()) := ⟨rfl, rfl⟩
  rw [writeToFile_due f 0 notice refusedAppend (some content) ⟨queued, due⟩, awaits.1, awaits.2]
  rw [Effect.bind_ok (a := .ok ()) rfl, Effect.bind_ok (a := .ok ()) rfl]
  rw [has, refusedAppend_open unverified short found]
  rfl

/-- An entry is queued, and the attempt gets as far as the tail check. -/
def checkOnly : List LateEvent :=
  [.event (.queue (plainDefinition "") "a.log" "logs" "entry" 0),
    .event (.write (plainDefinition "") 0 refusedAppend)]

theorem checkOnly_cuts {content : Bytes} {p : Nat} (short : content.length ≤ TAIL_CHECK_MAX_LEN)
    (found : truncatedFrameStart ⟨content, 0⟩ content.length = .ok (some p)) :
    let final := Machine.run (step warsaw) (.start (some content)) checkOnly
    .gone ∉ final.2 ∧ final.1.disk = some (content.take p) := by
  have queued : (step warsaw (.start (some content))
      (.event (.queue (plainDefinition "") "a.log" "logs" "entry" 0))).1 =
        ⟨some (((plainDefinition "").getLogFile none "a.log" "logs" 0).addToLog "entry" 0),
          some content⟩ := rfl
  generalize live : ((plainDefinition "").getLogFile none "a.log" "logs" 0).addToLog "entry" 0 =
    f at queued
  have cuts := refusedAppend_cuts (f := f) (by rw [← live]; decide) (by rw [← live]; rfl)
    (by rw [← live]; rfl) ((plainDefinition "").backlogNotice warsaw f refusedAppend.utcNow) short found
  unfold checkOnly
  rw [Machine.run_cons, queued, Machine.run_cons]
  simp only [step, writeAmong, attemptAmong, writeToFileAmong_none, cuts]
  exact ⟨by simp [anew], rfl⟩

/-- Whatever lands and whatever the attempts do, a content stays at the front of its file in every
run that does not delete it or create it anew, exactly if the tail check cuts nothing off it. -/
theorem settled_iff_never_cut (content : Bytes) :
    Settled content ↔ ∀ (live : Option LogFile) (events : List LateEvent),
      let final := Machine.run (step warsaw) ⟨live, some content⟩ events
      .gone ∉ final.2 → ∃ more, final.1.disk = some (content ++ more) := by
  constructor
  · intro settled live events final stays
    exact run_keeps warsaw settled ⟨live, some content⟩ events [] (by rw [List.append_nil]) stays
  · intro never
    by_cases long : TAIL_CHECK_MAX_LEN < content.length
    · exact Or.inl long
    · obtain ⟨verdict, found⟩ := truncatedFrameStart_total content
      cases verdict with
      | none => exact Or.inr found
      | some p =>
        obtain ⟨stays, cut⟩ := checkOnly_cuts warsaw (Nat.le_of_not_lt long) found
        obtain ⟨more, there⟩ := never none checkOnly stays
        have same : content.take p = content ++ more := Option.some.inj (cut.symm.trans there)
        obtain ⟨fs, t, rfl, -, torn, rfl⟩ := (truncatedFrameStart_iff content p).mp found
        have total := congrArg List.length same
        have some_left := List.length_pos_iff.mpr torn.1
        simp only [List.length_take, List.length_append] at total
        omega

/-! ## Acknowledged frames -/

/-- What lands in the step leaves the file settled where the next attempt will not check it, and
ahead of the frame of an attempt. Without a flag that is set, bytes land between attempts as they
like; so they do between the second length check and the cut. -/
def Harmless (s : FileState) : LateEvent → Prop
  | .land bytes => ∀ f, s.live = some f → f.tailVerified = true →
      ∀ content, s.disk = some content → Settled (content ++ bytes)
  | .write _ _ env others => ∀ f, s.live = some f →
      ∀ content, s.disk = some content → env.io.sees (some content) = true → others.within = [] ∧
        (others.walk = [] ∧ others.opened = [] ∨ Settled (aheadAmong f others content))
  | .event _ => True

/-- The flag is set only on a file that is settled. -/
def Trusted (s : FileState) : Prop :=
  ∀ f, s.live = some f → f.tailVerified = true → ∀ content, s.disk = some content → Settled content

/-- The frame of a write stands where it was written, behind a settled content. -/
def InPlace (s : FileState) (w : FileWrite) : Prop :=
  ∃ ahead more, Settled ahead ∧ Frame w.written.frame.bytes ∧
    w.after = some (ahead ++ w.written.frame.bytes) ∧
    s.disk = some (ahead ++ w.written.frame.bytes ++ more)

/-- What an output promises until the file is gone. -/
def Promised : LateOutput → FileState → Prop
  | .wrote w, s => InPlace s w
  | .gone, _ => True

theorem inPlace_written {live : Option LogFile} {before : Option Bytes} {written : Written}
    {ahead : Bytes} (settled : Settled ahead) (frame : Frame written.frame.bytes) :
    InPlace ⟨live, some (ahead ++ written.frame.bytes)⟩
      ⟨before, written, some (ahead ++ written.frame.bytes)⟩ :=
  ⟨ahead, [], settled, frame, rfl, by rw [List.append_nil]⟩

theorem trusted_settled {f : LogFile} {content : Bytes} (settled : Settled content) :
    Trusted ⟨some f, some content⟩ := by
  intro _ _ _ _ same
  cases same
  exact settled

/-- What an attempt writes behind a settled content is in place. -/
theorem writeAmong_harmless {s : FileState} {d : LogDefinition} {flushInterval : Duration}
    {env : AttemptEnv} {others : Others} (trusted : Trusted s)
    (harmless : Harmless s (.write d flushInterval env others)) :
    let out := writeAmong warsaw s d flushInterval env others
    Trusted out.1 ∧ ∀ w, .wrote w ∈ out.2 → InPlace out.1 w := by
  intro out
  cases live : s.live with
  | none =>
    have unchanged : out = (s, []) := by
      unfold out writeAmong
      rw [live]
    rw [unchanged]
    exact ⟨trusted, by simp⟩
  | some f =>
    cases result : (attemptAmong warsaw f d flushInterval env others s.disk).result with
    | error e =>
      rw [show out = _ from writeAmong_error live result]
      refine ⟨?_, fun w member => absurd member (wrote_not_anew w _)⟩
      intro f' same flag
      cases same
      cases flag
    | ok ended =>
      obtain ⟨f', written⟩ := ended
      rw [show out = _ from writeAmong_ok live result]
      generalize after : applyOps (attemptAmong warsaw f d flushInterval env others s.disk).ops
        s.disk = disk
      rcases ends_attempt ⟨result, after⟩ with ⟨rfl, rfl, rfl⟩ | ⟨frame, rfl, encoded, rfl, placed⟩
      · refine ⟨?_, by simp [wrote_not_anew]⟩
        intro f' same flag
        cases same
        apply trusted f live
        simpa only [LogFile.afterSkip, apply_ite LogFile.tailVerified, ite_self] using flag
      · have whole := (encodeFrame_frame encoded).1
        obtain ⟨ahead, settled, rfl⟩ : ∃ ahead, Settled ahead ∧ disk = some (ahead ++ frame.bytes) := by
          rcases placed with ⟨-, rfl⟩ | ⟨content, stored, seen, rfl⟩
          · exact ⟨MAGIC, settled_magic, rfl⟩
          · rw [stored] at seen
            obtain ⟨within, fine⟩ := harmless f live content stored seen
            refine ⟨aheadAmong f others content, ?_, by rw [within]; rfl⟩
            rcases fine with ⟨walk, opened⟩ | settled
            · exact settled_aheadAmong (fun flag => trusted f live flag content stored) walk opened
            · exact settled
        refine ⟨trusted_settled (settled_frame settled whole), ?_⟩
        intro w member
        rcases List.mem_append.mp member with created | wrote
        · exact absurd created (wrote_not_anew w _)
        · simp only [Option.toList_some, List.map_cons, List.map_nil, List.mem_singleton,
            LateOutput.wrote.injEq] at wrote
          subst wrote
          exact inPlace_written settled whole

theorem step_harmless {s : FileState} {e : LateEvent} (trusted : Trusted s) (harmless : Harmless s e) :
    Trusted (step warsaw s e).1 ∧ ∀ w, .wrote w ∈ (step warsaw s e).2 → InPlace (step warsaw s e).1 w := by
  cases e with
  | write d flushInterval env others => exact writeAmong_harmless warsaw trusted harmless
  | land bytes =>
    refine ⟨?_, by simp [step]⟩
    intro f live flag content stored
    obtain ⟨before, there, rfl⟩ := Option.map_eq_some_iff.mp stored
    exact harmless f live flag before there
  | event e =>
    have still {e : FileEvent} (other : ∀ d flushInterval env, e ≠ .write d flushInterval env)
        (disk : ∀ content, (s.step warsaw e).1.disk = some content → s.disk = some content) :
        Trusted (s.step warsaw e).1 := by
      intro f' live' flag' content stored
      obtain ⟨f, live, flag⟩ := FileState.step_flag other live' flag'
      exact trusted f live flag content (disk content stored)
    cases e with
    | write d flushInterval env =>
      apply writeAmong_harmless warsaw trusted
      intro f live content stored seen
      exact ⟨rfl, Or.inl ⟨rfl, rfl⟩⟩
    | queue d logName path log now => exact ⟨still (by simp) fun _ there => there, by simp [step]⟩
    | cleanUp now => exact ⟨still (by simp) fun _ there => there, by simp [step]⟩
    | restart => exact ⟨still (by simp) fun _ there => there, by simp [step]⟩
    | delete => exact ⟨still (by simp) fun _ none => (by cases none), by simp [step]⟩

/-- Acknowledged frames stay where they are: when what lands is harmless, the frame of every write
that succeeded stands in the file, at the place where it was written, in every later state up to
the next deletion or creation of the file. -/
theorem acknowledged_frames_stay (disk : Option Bytes) (events : List LateEvent)
    (harmless : Machine.Allowed (step warsaw) Harmless (.start disk) events) :
    let final := Machine.run (step warsaw) (.start disk) events
    ∀ past w later, final.2 = past ++ .wrote w :: later → .gone ∉ later →
      InPlace final.1 w := by
  intro final past w later given since
  refine Machine.run_promised Trusted Promised (· = .gone)
    (fun s e admitted trusted => (step_harmless warsaw trusted admitted).1) ?_ ?_
    (.start disk) (fun _ none => (by cases none)) events harmless given ?_
  · intro s e admitted trusted past o later here _
    cases o with
    | gone => trivial
    | wrote w => exact (step_harmless warsaw trusted admitted).2 w (by rw [here]; simp)
  · intro s e o admitted trusted promised stays
    cases o with
    | gone => trivial
    | wrote w =>
      obtain ⟨ahead, more, settled, frame, after, there⟩ := promised
      obtain ⟨behind, there⟩ := step_keeps warsaw (settled_frame settled frame) s e more there
        (fun gone => stays .gone gone rfl)
      exact ⟨ahead, behind, settled, frame, after, there⟩
  · intro o member gone
    subst gone
    exact since member

/-- A whole frame, of another writer. -/
def frameOfOther : Bytes := [0xff, 7, 0, 0xc5]

/-- The file ends inside a frame. Two bytes land while that is being cut off, and a whole frame
behind the cut; the process starts again, half a prefix lands, and another byte while that is
being cut off. -/
def landsInAttempts : List LateEvent :=
  [.event (.queue (plainDefinition "") "a.log" "logs" "entry" 0),
    .write (plainDefinition "") 0 (storedEnv allDone) ⟨[], [7, 7], frameOfOther, []⟩,
    .event .restart, .land [0xff, 7],
    .event (.queue (plainDefinition "") "a.log" "logs" "more" 0),
    .write (plainDefinition "") 0 (storedEnv allDone) ⟨[], [1], [], []⟩]

end Warsaw

theorem acknowledged_frames_stay_lands :
    let final := Machine.run (step warsawAtEpoch) (.start (some (MAGIC ++ [0xff]))) landsInAttempts
    (final.1.disk.map fun content => content.take (MAGIC ++ frameOfOther).length) =
        some (MAGIC ++ frameOfOther) ∧
      ∃ first second, final.2 = [.wrote first, .wrote second] ∧
        InPlace final.1 first ∧ InPlace final.1 second := by
  intro final
  have outputs : final.2.map (fun o => o.write?.isSome) = [true, true] := by decide +kernel
  have harmless : Machine.Allowed (step warsawAtEpoch) Harmless (.start (some (MAGIC ++ [0xff])))
      landsInAttempts := by
    refine ⟨trivial, ?_, trivial, ?_, trivial, ?_, trivial⟩
    · intro f live content there _
      cases live
      cases there
      exact ⟨rfl, Or.inr (Or.inr (by decide +kernel))⟩
    · intro _ none
      cases none
    · intro _ _ _ _ _
      exact ⟨rfl, Or.inl ⟨rfl, rfl⟩⟩
  have stays := acknowledged_frames_stay warsawAtEpoch (some (MAGIC ++ [0xff])) landsInAttempts harmless
  obtain ⟨one, two, both⟩ : ∃ one two, final.2 = [one, two] :=
    List.length_eq_two.mp (by simpa using congrArg List.length outputs)
  rw [both] at outputs
  refine ⟨by decide +kernel, ?_⟩
  cases one with
  | gone => simp [LateOutput.write?] at outputs
  | wrote first =>
    cases two with
    | gone => simp [LateOutput.write?] at outputs
    | wrote second =>
      exact ⟨first, second, both, stays [] first [.wrote second] both (by simp),
        stays [.wrote first] second [] both List.not_mem_nil⟩

end OpLog.Guarantees.LateWrites
