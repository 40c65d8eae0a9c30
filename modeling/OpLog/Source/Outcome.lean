import OpLog.Source.WriteToFile

/-!
# What one write attempt can do

`LogFile.writeToFile` inverted, once for every later argument: the operations an attempt
can issue, next to the result it then has (`writeToFile_outcome`), and what its caller
makes of that (`writeOne_outcome`).
-/
namespace OpLog.Source

/-- The attempt goes past its two early returns. -/
def LogFile.due (f : LogFile) (flushInterval : Duration) (now : Instant) : Prop :=
  f.logs ≠ [] ∧ f.early flushInterval now = false

/-- The file after an attempt that was not due. -/
def LogFile.afterSkip (f : LogFile) : LogFile :=
  if f.logs.isEmpty then { f with timeOfFirstAdditionOfLogAfterWrite := none } else f

/-- The repair of a tail check all of whose calls succeed. -/
def LogFile.tailOps (f : LogFile) (content : Bytes) : List DiskOp :=
  if f.tailVerified || decide (content.length > TAIL_CHECK_MAX_LEN) then []
  else match truncatedFrameStart ⟨content, 0⟩ content.length with
    | .ok (some cut) => [.setLen cut]
    | _ => []

/-- The operations of an opening that succeeds. -/
def LogFile.openOps (f : LogFile) (content : Option Bytes) (hasContent : Bool) : List DiskOp :=
  if hasContent then f.tailOps (content.getD []) else [.create, .append MAGIC]

def LogFile.headerFor (f : LogFile) (hasContent : Bool) : Option String :=
  if !hasContent && !f.header.isEmpty then some f.header else none

/-- What `metadata` makes of the content; an attempt whose `metadata` does not come back
never opens the file. -/
def WriteIo.sees (io : WriteIo) (content : Option Bytes) : Bool :=
  match io.metadata with
  | .ready metadata => hasContent metadata content
  | .pending => false

/-- The two awaits before the opening came back in time. -/
def WriteIo.cameBack (io : WriteIo) : Prop := io.createDirAll ≠ .pending ∧ io.metadata ≠ .pending

/-- The operations and the result of one attempt; `has` is what `metadata` made of the
content. -/
inductive Outcome (f : LogFile) (flushInterval : Duration) (notice : Option String)
    (env : AttemptEnv) (content : Option Bytes) (has : Bool) :
    List DiskOp → IoResult (LogFile × Option Written) → Prop where
  | skipped (idle : ¬ f.due flushInterval env.now) :
      Outcome f flushInterval notice env content has [] (.ok (f.afterSkip, none))
  | refused (e : IoError) (due : f.due flushInterval env.now)
      (cause : has = false → env.io.createDirAll = .pending ∨ env.io.metadata = .pending ∨
        env.io.create = .failed e false) :
      Outcome f flushInterval notice env content has [] (.error e)
  | created (e : IoError) (due : f.due flushInterval env.now) (came : env.io.cameBack)
      (fresh : has = false) (cause : env.io.create = .failed e true) :
      Outcome f flushInterval notice env content has [.create] (.error e)
  | magic (e : IoError) (k : Nat) (due : f.due flushInterval env.now)
      (came : env.io.cameBack) (fresh : has = false) (opened : env.io.create = .done)
      (cause : env.io.magic = .failed e k ∨ env.io.magic = .done ∧ k = MAGIC.length ∧
        encodeFrame env.deflater env.rnd f.logs (f.headerFor has) notice = .error e) :
      Outcome f flushInterval notice env content has [.create, .append (MAGIC.take k)] (.error e)
  | repaired (e : IoError) (due : f.due flushInterval env.now) (came : env.io.cameBack)
      (existing : has = true) :
      Outcome f flushInterval notice env content has (f.tailOps (content.getD [])) (.error e)
  | torn (e : IoError) (k : Nat) (frame : EncodedFrame) (pieces : List Bytes)
      (due : f.due flushInterval env.now) (came : env.io.cameBack)
      (opened : has = false → env.io.create = .done ∧ env.io.magic = .done)
      (encoded : encodeFrame env.deflater env.rnd f.logs (f.headerFor has) notice = .ok frame)
      (part : pieces.flatten = frame.bytes.take k)
      (whole : env.io.framePrefix = .done → env.io.payload = .done → pieces.flatten = frame.bytes) :
      Outcome f flushInterval notice env content has
        (f.openOps content has ++ pieces.map DiskOp.append) (.error e)
  | written (frame : EncodedFrame) (due : f.due flushInterval env.now)
      (came : env.io.cameBack) (opened : has = false → env.io.create = .done ∧ env.io.magic = .done)
      (encoded : encodeFrame env.deflater env.rnd f.logs (f.headerFor has) notice = .ok frame) :
      Outcome f flushInterval notice env content has
        (f.openOps content has ++ [frame.framePrefix, frame.payload].map DiskOp.append)
        (.ok (f.afterWrite frame.consumed, some ⟨f.headerFor has, notice,
          f.logs.take frame.consumed, frame⟩))

/-! ## The calls of the attempt -/

theorem Effect.bind_error {α β : Type} {e : Effect α} {next : α → Effect β} {err : IoError}
    (h : e.result = .error err) : e >>= next = ⟨e.ops, .error err⟩ := by
  rw [Effect.bind_eq, h]

theorem Effect.bind_ok {α β : Type} {e : Effect α} {next : α → Effect β} {a : α}
    (h : e.result = .ok a) : e >>= next = ⟨e.ops ++ (next a).ops, (next a).result⟩ := by
  rw [Effect.bind_eq, h]

/-- The blocking part of the tail check issues its repair, unless it fails before that. -/
theorem cutInterruptedTailUpTo_cases (f : LogFile) (io : TailIo) (content : Bytes)
    (unverified : f.tailVerified = false) :
    (∃ e, cutInterruptedTailUpTo io content content TAIL_CHECK_MAX_LEN = ⟨[], .error e⟩) ∨
    (cutInterruptedTailUpTo io content content TAIL_CHECK_MAX_LEN).ops = f.tailOps content := by
  unfold cutInterruptedTailUpTo LogFile.tailOps
  simp only [unverified, Bool.false_or]
  cases io.openFile with
  | error e => exact Or.inl ⟨e, rfl⟩
  | ok _ =>
    cases io.metadata with
    | error e => exact Or.inl ⟨e, rfl⟩
    | ok _ =>
      by_cases long : content.length > TAIL_CHECK_MAX_LEN
      · right
        simp only [long, decide_true, if_true]
        rfl
      · simp only [long, decide_false, if_false]
        cases io.read with
        | error e => exact Or.inl ⟨e, rfl⟩
        | ok _ =>
          cases truncatedFrameStart ⟨content, 0⟩ content.length with
          | error e => exact Or.inl ⟨e, rfl⟩
          | ok cut =>
            cases cut with
            | none => exact Or.inr rfl
            | some cut =>
              cases io.metadataAgain with
              | error e => exact Or.inl ⟨e, rfl⟩
              | ok _ =>
                cases io.setLen with
                | error e =>
                  left
                  refine ⟨e, ?_⟩
                  simp [Effect.bind_eq, Effect.call, setLen]
                | ok _ =>
                  right
                  simp [Effect.bind_eq, Effect.call, setLen]

theorem cutInterruptedTail_cases (f : LogFile) (io : TailIo) (content : Bytes)
    (unverified : f.tailVerified = false) :
    (∃ e, cutInterruptedTail io content = ⟨[], .error e⟩) ∨
    (cutInterruptedTail io content).ops = f.tailOps content := by
  rcases cutInterruptedTailUpTo_cases f io content unverified with ⟨e, failed⟩ | issued
  · left
    unfold cutInterruptedTail
    simp only [failed]
    cases io.join with
    | error e' => exact ⟨e', rfl⟩
    | ok _ => exact ⟨e, rfl⟩
  · exact Or.inr issued

/-! ## The opening -/

/-- An existing file is opened behind its repaired tail; a failing opening may have
repaired it too. -/
theorem openFile_existing (f : LogFile) (io : WriteIo) (content : Option Bytes) :
    (∃ e, f.openFile io content true = ⟨[], .error e⟩) ∨
    (∃ e, f.openFile io content true = ⟨f.tailOps (content.getD []), .error e⟩) ∨
    f.openFile io content true = ⟨f.tailOps (content.getD []), .ok ()⟩ := by
  unfold LogFile.openFile
  simp only [if_true]
  have opened (check : Effect Unit) (ops : check.ops = f.tailOps (content.getD [])) :
      (∃ e, (check >>= fun _ => Effect.call io.openAppend) =
        ⟨f.tailOps (content.getD []), .error e⟩) ∨
      (check >>= fun _ => Effect.call io.openAppend) = ⟨f.tailOps (content.getD []), .ok ()⟩ := by
    rw [← ops]
    cases checked : check.result with
    | error e => exact Or.inl ⟨e, Effect.bind_error checked⟩
    | ok u =>
      rw [Effect.bind_ok checked]
      cases io.openAppend with
      | error e => exact Or.inl ⟨e, by simp [Effect.call]⟩
      | ok u => exact Or.inr (by simp [Effect.call])
  cases verified : f.tailVerified with
  | true =>
    have none_needed : f.tailOps (content.getD []) = [] := by simp [LogFile.tailOps, verified]
    exact Or.inr (opened (pure ()) none_needed.symm)
  | false =>
    rcases cutInterruptedTail_cases f io.tail (content.getD []) verified with ⟨e, failed⟩ | issued
    · refine Or.inl ⟨e, ?_⟩
      simp only [Bool.false_eq_true, if_false, failed]
      rfl
    · exact Or.inr (opened _ issued)

/-- A new file is created, then gets its magic; either may be cut short. -/
theorem openFile_new (f : LogFile) (io : WriteIo) (content : Option Bytes) :
    (∃ e, io.create = .failed e false ∧ f.openFile io content false = ⟨[], .error e⟩) ∨
    (∃ e, io.create = .failed e true ∧ f.openFile io content false = ⟨[.create], .error e⟩) ∨
    io.create = .done ∧
      ((∃ e k, io.magic = .failed e k ∧
        f.openFile io content false = ⟨[.create, .append (MAGIC.take k)], .error e⟩) ∨
      io.magic = .done ∧ f.openFile io content false = ⟨[.create, .append MAGIC], .ok ()⟩) := by
  unfold LogFile.openFile
  simp only [Bool.false_eq_true, if_false]
  cases io.create with
  | failed e touched =>
    cases touched with
    | false => exact Or.inl ⟨e, rfl, rfl⟩
    | true => exact Or.inr (Or.inl ⟨e, rfl, rfl⟩)
  | done =>
    refine Or.inr (Or.inr ⟨rfl, ?_⟩)
    cases io.magic with
    | failed e k => exact Or.inl ⟨e, k, rfl, rfl⟩
    | done => exact Or.inr ⟨rfl, rfl⟩

/-! ## The frame -/

/-- The attempt behind its opening. -/
def LogFile.writeFrame (f : LogFile) (notice : Option String) (env : AttemptEnv) (has : Bool) :
    Effect (LogFile × Option Written) := do
  let frame ← Effect.call (encodeFrame env.deflater env.rnd f.logs (f.headerFor has) notice)
  writeAll env.io.framePrefix frame.framePrefix
  writeAll env.io.payload frame.payload
  Effect.call env.io.flush
  return (f.afterWrite frame.consumed,
    some ⟨f.headerFor has, notice, f.logs.take frame.consumed, frame⟩)

/-- The three calls that write a frame succeed with all of it, or fail with a prefix. -/
theorem writeFrame_cases (f : LogFile) (notice : Option String) (env : AttemptEnv) (has : Bool) :
    (∃ e, encodeFrame env.deflater env.rnd f.logs (f.headerFor has) notice = .error e ∧
      f.writeFrame notice env has = ⟨[], .error e⟩) ∨
    ∃ frame, encodeFrame env.deflater env.rnd f.logs (f.headerFor has) notice = .ok frame ∧
      ((∃ e k, ∃ pieces : List Bytes, pieces.flatten = frame.bytes.take k ∧
        (env.io.framePrefix = .done → env.io.payload = .done → pieces.flatten = frame.bytes) ∧
        f.writeFrame notice env has = ⟨pieces.map DiskOp.append, .error e⟩) ∨
      f.writeFrame notice env has = ⟨[frame.framePrefix, frame.payload].map DiskOp.append,
        .ok (f.afterWrite frame.consumed,
          some ⟨f.headerFor has, notice, f.logs.take frame.consumed, frame⟩)⟩) := by
  unfold LogFile.writeFrame
  cases encodeFrame env.deflater env.rnd f.logs (f.headerFor has) notice with
  | error e => exact Or.inl ⟨e, rfl, rfl⟩
  | ok frame =>
    refine Or.inr ⟨frame, rfl, ?_⟩
    rw [Effect.bind_ok rfl]
    cases env.io.framePrefix with
    | failed e k =>
      refine Or.inl ⟨e, min k frame.framePrefix.length, [frame.framePrefix.take k], ?_, by simp, rfl⟩
      unfold EncodedFrame.bytes
      rw [List.take_append_of_le_length (Nat.min_le_right _ _)]
      simp [List.take_eq_take_iff]
    | done =>
      cases env.io.payload with
      | failed e k =>
        refine Or.inl ⟨e, frame.framePrefix.length + k,
          [frame.framePrefix, frame.payload.take k], ?_, by simp, rfl⟩
        simp [EncodedFrame.bytes, List.take_append, List.take_of_length_le]
      | done =>
        cases env.io.flush with
        | ok _ => exact Or.inr rfl
        | error e =>
          have whole : [frame.framePrefix, frame.payload].flatten = frame.bytes := by
            simp [EncodedFrame.bytes]
          exact Or.inl ⟨e, frame.bytes.length, [frame.framePrefix, frame.payload],
            by rw [whole, List.take_length], fun _ _ => whole, rfl⟩

/-! ## The attempt -/

/-- Behind its two early returns an attempt is its awaits, the opening and the frame. -/
theorem writeToFile_due (f : LogFile) (flushInterval : Duration) (notice : Option String)
    (env : AttemptEnv) (content : Option Bytes) (due : f.due flushInterval env.now) :
    f.writeToFile flushInterval notice env content = (do
      let _ ← Effect.await env.io.createDirAll
      let metadata ← Effect.await env.io.metadata
      f.openFile env.io content (hasContent metadata content)
      f.writeFrame notice env (hasContent metadata content)) := by
  have queued : f.logs.isEmpty = false := by simpa using due.1
  unfold LogFile.writeToFile
  simp only [queued, due.2, Bool.false_eq_true, if_false]
  rfl

/-- An opening followed by the frame. -/
theorem openFile_writeFrame (f : LogFile) (flushInterval : Duration) (notice : Option String)
    (env : AttemptEnv) (content : Option Bytes) (has : Bool) (due : f.due flushInterval env.now)
    (came : env.io.cameBack) :
    let write : Effect (LogFile × Option Written) := do
      f.openFile env.io content has
      f.writeFrame notice env has
    Outcome f flushInterval notice env content has write.ops write.result := by
  have opened (ok : f.openFile env.io content has = ⟨f.openOps content has, .ok ()⟩)
      (made : has = false → env.io.create = .done ∧ env.io.magic = .done)
      (unwritten : ∀ e, encodeFrame env.deflater env.rnd f.logs (f.headerFor has) notice = .error e →
        Outcome f flushInterval notice env content has (f.openOps content has) (.error e)) :
      let write : Effect (LogFile × Option Written) := do
        f.openFile env.io content has
        f.writeFrame notice env has
      Outcome f flushInterval notice env content has write.ops write.result := by
    simp only [ok, Effect.bind_eq]
    rcases writeFrame_cases f notice env has with
      ⟨e, failed, h⟩ | ⟨frame, encoded, ⟨e, k, pieces, part, whole, torn⟩ | written⟩
    · rw [h]
      simpa using unwritten e failed
    · rw [torn]
      exact .torn e k frame pieces due came made encoded part whole
    · rw [written]
      exact .written frame due came made encoded
  cases has with
  | true =>
    rcases openFile_existing f env.io content with ⟨e, h⟩ | ⟨e, h⟩ | h
    · simp only [h, Effect.bind_eq]
      exact .refused e due (by simp)
    · simp only [h, Effect.bind_eq]
      exact .repaired e due came rfl
    · exact opened h (by simp) (fun e _ => .repaired e due came rfl)
  | false =>
    rcases openFile_new f env.io content with
      ⟨e, cause, h⟩ | ⟨e, cause, h⟩ | ⟨made, ⟨e, k, cause, h⟩ | ⟨magic, h⟩⟩
    · simp only [h, Effect.bind_eq]
      exact .refused e due (fun _ => Or.inr (Or.inr cause))
    · simp only [h, Effect.bind_eq]
      exact .created e due came rfl cause
    · simp only [h, Effect.bind_eq]
      exact .magic e k due came rfl made (Or.inl cause)
    · exact opened h (fun _ => ⟨made, magic⟩)
        (fun e failed => .magic e MAGIC.length due came rfl made (Or.inr ⟨magic, rfl, failed⟩))

/-- Everything an attempt can do. -/
theorem writeToFile_outcome (f : LogFile) (flushInterval : Duration) (notice : Option String)
    (env : AttemptEnv) (content : Option Bytes) :
    Outcome f flushInterval notice env content (env.io.sees content)
      (f.writeToFile flushInterval notice env content).ops
      (f.writeToFile flushInterval notice env content).result := by
  by_cases due : f.due flushInterval env.now
  · rw [writeToFile_due f flushInterval notice env content due]
    cases made : env.io.createDirAll with
    | pending => exact .refused _ due (fun _ => Or.inl made)
    | ready _ =>
      cases measured : env.io.metadata with
      | pending => exact .refused _ due (fun _ => Or.inr (Or.inl measured))
      | ready metadata =>
        have sees : env.io.sees content = hasContent metadata content := by
          unfold WriteIo.sees
          simp only [measured]
        rw [sees]
        exact openFile_writeFrame f flushInterval notice env content _ due
          (by simp [WriteIo.cameBack, made, measured])
  · have skipped : f.writeToFile flushInterval notice env content = ⟨[], .ok (f.afterSkip, none)⟩ := by
      by_cases idle : f.logs.isEmpty
      · unfold LogFile.writeToFile LogFile.afterSkip
        simp only [idle, if_true]
        rfl
      · have early : f.early flushInterval env.now = true := by
          by_contra later
          exact due ⟨by simpa using idle, by simpa using later⟩
        simp only [LogFile.writeToFile, LogFile.afterSkip, idle, early, if_true]
        rfl
    rw [skipped]
    exact .skipped due

/-- An attempt never changes the header of its file. -/
theorem writeToFile_header {f f' : LogFile} {flushInterval : Duration} {notice : Option String}
    {env : AttemptEnv} {content : Option Bytes} {written : Option Written}
    (h : (f.writeToFile flushInterval notice env content).result = .ok (f', written)) :
    f'.header = f.header := by
  have outcome := writeToFile_outcome f flushInterval notice env content
  rw [h] at outcome
  generalize (f.writeToFile flushInterval notice env content).ops = ops at outcome
  cases outcome with
  | skipped idle => simp only [LogFile.afterSkip, apply_ite LogFile.header, ite_self]
  | written frame due came opened encoded => rfl

section Warsaw
variable {warsaw : DateTimeUtc → LocalDateTime}

theorem writeOne_ok {d : LogDefinition} {flushInterval : Duration} {env : AttemptEnv} {f f' : LogFile}
    {content : Option Bytes} {written : Option Written}
    (h : (f.writeToFile flushInterval (d.backlogNotice warsaw f env.utcNow) env content).result =
      .ok (f', written)) :
    d.writeOne warsaw flushInterval env f content =
      ({ f' with writeErrorLogged := false },
        ⟨(f.writeToFile flushInterval (d.backlogNotice warsaw f env.utcNow) env content).ops,
          .ok written, false⟩) := by
  unfold LogDefinition.writeOne
  simp only [h]

theorem writeOne_error {d : LogDefinition} {flushInterval : Duration} {env : AttemptEnv} {f : LogFile}
    {content : Option Bytes} {e : IoError}
    (h : (f.writeToFile flushInterval (d.backlogNotice warsaw f env.utcNow) env content).result =
      .error e) :
    d.writeOne warsaw flushInterval env f content =
      ({ f with tailVerified := false, writeErrorLogged := true },
        ⟨(f.writeToFile flushInterval (d.backlogNotice warsaw f env.utcNow) env content).ops,
          .error e, !f.writeErrorLogged⟩) := by
  unfold LogDefinition.writeOne
  simp only [h]

/-- The frame an attempt wrote, if it wrote one. -/
def Attempt.written (a : Attempt) : Option Written :=
  match a.result with
  | .ok written => written
  | .error _ => none

variable (warsaw) in
/-- What the caller makes of an attempt: it was not due, it failed, or it wrote a frame. -/
theorem writeOne_outcome (d : LogDefinition) (flushInterval : Duration) (env : AttemptEnv)
    (f : LogFile) (content : Option Bytes) :
    let out := d.writeOne warsaw flushInterval env f content
    (¬ f.due flushInterval env.now ∧
        out = ({ f.afterSkip with writeErrorLogged := false }, ⟨[], .ok none, false⟩)) ∨
      (∃ ops e, f.due flushInterval env.now ∧
        out = ({ f with tailVerified := false, writeErrorLogged := true },
          ⟨ops, .error e, !f.writeErrorLogged⟩)) ∨
      ∃ ops has frame, f.due flushInterval env.now ∧
        encodeFrame env.deflater env.rnd f.logs (f.headerFor has)
          (d.backlogNotice warsaw f env.utcNow) = .ok frame ∧
        out = ({ f.afterWrite frame.consumed with writeErrorLogged := false },
          ⟨ops, .ok (some ⟨f.headerFor has, d.backlogNotice warsaw f env.utcNow,
            f.logs.take frame.consumed, frame⟩), false⟩) := by
  intro out
  have outcome := writeToFile_outcome f flushInterval (d.backlogNotice warsaw f env.utcNow) env content
  cases result :
      (f.writeToFile flushInterval (d.backlogNotice warsaw f env.utcNow) env content).result with
  | error e =>
    rw [result] at outcome
    have failed := writeOne_error result
    generalize (f.writeToFile flushInterval (d.backlogNotice warsaw f env.utcNow) env content).ops =
      ops at outcome failed
    have due : f.due flushInterval env.now := by
      cases outcome <;> assumption
    exact Or.inr (Or.inl ⟨ops, e, due, failed⟩)
  | ok ended =>
    obtain ⟨f', written⟩ := ended
    have returned := writeOne_ok result
    rw [result] at outcome
    generalize (f.writeToFile flushInterval (d.backlogNotice warsaw f env.utcNow) env content).ops =
      ops at outcome returned
    cases outcome with
    | skipped idle => exact Or.inl ⟨idle, returned⟩
    | written frame due came opened encoded =>
      exact Or.inr (Or.inr ⟨_, _, frame, due, encoded, returned⟩)

theorem LogFile.afterSkip_eq (f : LogFile) :
    f.afterSkip = { f with timeOfFirstAdditionOfLogAfterWrite :=
      if f.logs.isEmpty then none else f.timeOfFirstAdditionOfLogAfterWrite } := by
  unfold LogFile.afterSkip
  split <;> rfl

variable (warsaw) in
/-- What an attempt does to the queue: nothing, unless it was due and succeeded; then the
consumed entries and the drop count go into the frame. -/
theorem writeOne_cases (d : LogDefinition) (flushInterval : Duration) (env : AttemptEnv)
    (f : LogFile) (content : Option Bytes) :
    let out := d.writeOne warsaw flushInterval env f content
    out.1.lastTimeUse = f.lastTimeUse ∧
    ((out.2.written = none ∧ out.1.logs = f.logs ∧ out.1.droppedLogs = f.droppedLogs ∧
        (¬ f.due flushInterval env.now ∨ ∃ e, out.2.result = .error e)) ∨
      ∃ has frame, f.due flushInterval env.now ∧
        encodeFrame env.deflater env.rnd f.logs (f.headerFor has)
          (d.backlogNotice warsaw f env.utcNow) = .ok frame ∧
        out.2.written = some ⟨f.headerFor has, d.backlogNotice warsaw f env.utcNow,
          f.logs.take frame.consumed, frame⟩ ∧
        out.1.logs = f.logs.drop frame.consumed ∧ out.1.droppedLogs = 0) := by
  intro out
  rcases writeOne_outcome warsaw d flushInterval env f content with
    ⟨idle, skipped⟩ | ⟨ops, e, due, failed⟩ | ⟨ops, has, frame, due, encoded, written⟩
  · rw [show out = _ from skipped, LogFile.afterSkip_eq]
    exact ⟨rfl, Or.inl ⟨rfl, rfl, rfl, Or.inl idle⟩⟩
  · rw [show out = _ from failed]
    exact ⟨rfl, Or.inl ⟨rfl, rfl, rfl, Or.inr ⟨e, rfl⟩⟩⟩
  · rw [show out = _ from written]
    exact ⟨rfl, Or.inr ⟨has, frame, due, encoded, rfl, rfl, rfl⟩⟩

end Warsaw

end OpLog.Source
