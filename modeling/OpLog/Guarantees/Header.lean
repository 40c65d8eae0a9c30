import OpLog.Format.Attempt
import OpLog.Guarantees.OneFile
import OpLog.Guarantees.RoundTrip

/-!
# The header of a new file

The header goes into the frame of an attempt that creates the file, so a file gets it only
if that attempt also completes its first frame: once the magic is on disk the file counts
as an existing one. A run in which no creation is cut short behind the first byte of the
magic has the header in its first frame and nowhere else.
-/
namespace OpLog.Guarantees.Header
open Library Library.FrameStream Format Source RoundTrip

/-! ## What an attempt encodes -/

/-- The call of `encode_frame` behind the opening of the file, if that succeeds. -/
def openedCall (f : LogFile) (notice : Option String) (env : AttemptEnv) (content : Option Bytes)
    (hasContent : Bool) : Option FrameCall :=
  match (f.openFile env.io content hasContent).result with
  | .ok () => some ⟨env.deflater, env.rnd, f.logs, f.headerFor hasContent, notice⟩
  | .error _ => none

/-- The call of `encode_frame` in an attempt; an attempt that ends before its file is open makes
none. -/
def frameCall (f : LogFile) (flushInterval : Duration) (notice : Option String) (env : AttemptEnv)
    (content : Option Bytes) : Option FrameCall :=
  if f.logs.isEmpty || f.early flushInterval env.now then none
  else match env.io.createDirAll, env.io.metadata with
    | .ready _, .ready metadata => openedCall f notice env content (hasContent metadata content)
    | _, _ => none

/-- The operations and the result of an attempt next to the call it makes. -/
inductive Encodes (f : LogFile) (flushInterval : Duration) (notice : Option String)
    (env : AttemptEnv) (content : Option Bytes) :
    Option FrameCall → List DiskOp → IoResult (LogFile × Option Written) → Prop where
  | idle (result : IoResult (LogFile × Option Written)) (unwritten : ∀ f' w, result ≠ .ok (f', some w)) :
      Encodes f flushInterval notice env content none [] result
  | unopened (e : IoError) (ops : List DiskOp) (due : f.due flushInterval env.now)
      (came : env.io.cameBack)
      (failed : f.openFile env.io content (env.io.sees content) = ⟨ops, .error e⟩) :
      Encodes f flushInterval notice env content none ops (.error e)
  | opened (due : f.due flushInterval env.now) (came : env.io.cameBack)
      (made : env.io.sees content = false → env.io.create = .done ∧ env.io.magic = .done) :
      Encodes f flushInterval notice env content
        (some ⟨env.deflater, env.rnd, f.logs, f.headerFor (env.io.sees content), notice⟩)
        (f.openOps content (env.io.sees content) ++ (f.writeFrame notice env (env.io.sees content)).ops)
        (f.writeFrame notice env (env.io.sees content)).result

/-- An opening that succeeds has repaired the tail, or has made a new file with its magic. -/
theorem openFile_ok {f : LogFile} {io : WriteIo} {content : Option Bytes} {has : Bool}
    (ok : (f.openFile io content has).result = .ok ()) :
    (f.openFile io content has).ops = f.openOps content has ∧
      (has = false → io.create = .done ∧ io.magic = .done) := by
  cases has with
  | true =>
    rcases openFile_existing f io content with ⟨e, h⟩ | ⟨e, h⟩ | h
    · rw [h] at ok
      cases ok
    · rw [h] at ok
      cases ok
    · rw [h]
      exact ⟨rfl, by simp⟩
  | false =>
    rcases openFile_new f io content with
      ⟨e, -, h⟩ | ⟨e, -, h⟩ | ⟨made, ⟨e, k, -, h⟩ | ⟨magic, h⟩⟩
    · rw [h] at ok
      cases ok
    · rw [h] at ok
      cases ok
    · rw [h] at ok
      cases ok
    · rw [h]
      exact ⟨rfl, fun _ => ⟨made, magic⟩⟩

/-- An opening, and the frame if it succeeds. -/
theorem opening_encodes (f : LogFile) (flushInterval : Duration) (notice : Option String)
    (env : AttemptEnv) (content : Option Bytes) (due : f.due flushInterval env.now)
    (came : env.io.cameBack) :
    let has := env.io.sees content
    let write : Effect (LogFile × Option Written) := do
      f.openFile env.io content has
      f.writeFrame notice env has
    Encodes f flushInterval notice env content (openedCall f notice env content has) write.ops
      write.result := by
  intro has write
  unfold openedCall
  cases opened : (f.openFile env.io content has).result with
  | error e =>
    rw [show write = _ from Effect.bind_error opened]
    exact .unopened e _ due came (by rw [← opened])
  | ok u =>
    obtain ⟨ops, made⟩ := openFile_ok opened
    rw [show write = _ from Effect.bind_ok opened, ops]
    exact .opened due came made

theorem attempt_encodes (f : LogFile) (flushInterval : Duration) (notice : Option String)
    (env : AttemptEnv) (content : Option Bytes) :
    Encodes f flushInterval notice env content (frameCall f flushInterval notice env content)
      (f.writeToFile flushInterval notice env content).ops
      (f.writeToFile flushInterval notice env content).result := by
  by_cases due : f.due flushInterval env.now
  · rw [writeToFile_due f flushInterval notice env content due]
    have passed : (f.logs.isEmpty || f.early flushInterval env.now) = false := by
      simpa [LogFile.due] using due
    unfold frameCall
    rw [passed]
    have openings := opening_encodes f flushInterval notice env content due
    cases made : env.io.createDirAll with
    | pending => exact .idle (.error .timedOut) (by simp)
    | ready _ =>
      cases measured : env.io.metadata with
      | pending => exact .idle (.error .timedOut) (by simp)
      | ready metadata =>
        have came : env.io.cameBack := by simp [WriteIo.cameBack, made, measured]
        have sees : env.io.sees content = hasContent metadata content := by
          unfold WriteIo.sees
          simp only [measured]
        rw [sees] at openings
        exact openings came
  · have skipped : f.logs.isEmpty || f.early flushInterval env.now := by
      by_contra passed
      exact due (by simpa [LogFile.due] using passed)
    unfold frameCall
    rw [if_pos skipped]
    have outcome := writeToFile_outcome f flushInterval notice env content
    generalize (f.writeToFile flushInterval notice env content).ops = ops,
      (f.writeToFile flushInterval notice env content).result = result at outcome ⊢
    cases outcome with
    | skipped idle => exact .idle _ (by simp)
    | _ => exact absurd ‹_› due

/-! ## What is in the file -/

/-- All of the frame of a call, a part of it, or nothing. -/
def PartOf (call : FrameCall) (part : Bytes) : Prop :=
  part = [] ∨ ∃ frame k, call.encode = .ok frame ∧ part = frame.bytes.take k

/-- What the calls left of their frames, in their order. -/
def PartsOf (calls : List FrameCall) (rest : Bytes) : Prop :=
  ∃ parts : List Bytes, rest = parts.flatten ∧ List.Forall₂ PartOf calls parts

/-- Of the calls made so far one had the header, and its frame is the first of the file: the text
of the file starts with the header line. Whatever is behind that frame comes from the calls made
since, none of which had a header. -/
def HeaderFirst (inflate : Bytes → Option Bytes) (header : String) (calls : List FrameCall)
    (content : Option Bytes) : Prop :=
  ∃ before first later frame text rest, calls = before ++ first :: later ∧
    first.header = some header ∧ first.encode = .ok frame ∧
    content = some (MAGIC ++ (frame.bytes ++ rest)) ∧
    (∀ more, decodeBlock inflate (frame.bytes ++ more) = some (header ++ "\n" ++ text, more)) ∧
    (∀ call ∈ later, call.header = none) ∧ PartsOf later rest

/-- An attempt that creates the file does nothing to it, or leaves a file without content
without content, or puts the whole of magic and first frame on disk. -/
def CreatesWhole (f : LogFile) (flushInterval : Duration) (notice : Option String) (env : AttemptEnv)
    (disk : Option Bytes) : Prop :=
  f.due flushInterval env.now → env.io.cameBack → env.io.sees disk = false →
    (∃ e, env.io.create = .failed e false) ∨
    ((disk = none ∨ disk = some []) ∧
      ((∃ e, env.io.create = .failed e true) ∨ ∃ e, env.io.magic = .failed e 0)) ∨
    env.io.create = .done ∧ env.io.magic = .done ∧
      (∃ frame, encodeFrame env.deflater env.rnd f.logs (f.headerFor false) notice = .ok frame) ∧
      env.io.framePrefix = .done ∧ env.io.payload = .done

/-! ## Parts of frames -/

theorem partOf_take {call : FrameCall} {part : Bytes} (h : PartOf call part) (n : Nat) :
    PartOf call (part.take n) := by
  rcases h with rfl | ⟨frame, k, encoded, rfl⟩
  · exact Or.inl List.take_nil
  · exact Or.inr ⟨frame, min n k, encoded, List.take_take⟩

theorem partsOf_nil : PartsOf [] [] := ⟨[], rfl, .nil⟩

theorem partsOf_take {calls : List FrameCall} {rest : Bytes} (h : PartsOf calls rest) (n : Nat) :
    PartsOf calls (rest.take n) := by
  obtain ⟨parts, rfl, each⟩ := h
  induction each generalizing n with
  | nil => exact ⟨[], by simp, .nil⟩
  | @cons call part calls parts first others ih =>
    obtain ⟨more, split, each'⟩ := ih (n - part.length)
    refine ⟨part.take n :: more, ?_, .cons (partOf_take first n) each'⟩
    rw [List.flatten_cons, List.take_append, split, List.flatten_cons]

theorem partsOf_append {calls : List FrameCall} {rest : Bytes} (h : PartsOf calls rest)
    {call : FrameCall} {part : Bytes} (last : PartOf call part) :
    PartsOf (calls ++ [call]) (rest ++ part) := by
  obtain ⟨parts, rfl, each⟩ := h
  exact ⟨parts ++ [part], by simp, List.rel_append each (.cons last .nil)⟩

/-! ## One attempt -/

section Attempt
variable {inflate : Bytes → Option Bytes} {header : String} {f : LogFile} {flushInterval : Duration}
  {notice : Option String} {env : AttemptEnv} {calls : List FrameCall}

/-- A first frame, written by an attempt that created the file. -/
theorem headerFirst_new (law : Inflates env.deflater inflate) (mine : f.header = header)
    (nonempty : header ≠ "") (calls : List FrameCall) {frame : EncodedFrame}
    (encoded : encodeFrame env.deflater env.rnd f.logs (f.headerFor false) notice = .ok frame) :
    HeaderFirst inflate header
      (calls ++ [⟨env.deflater, env.rnd, f.logs, f.headerFor false, notice⟩])
      (some (MAGIC ++ frame.bytes)) := by
  have asked : f.headerFor false = some header := by
    simp [LogFile.headerFor, mine, nonempty]
  rw [asked] at encoded ⊢
  have text : frameText (some header) notice (f.logs.take frame.consumed) =
      header ++ "\n" ++ frameText none notice (f.logs.take frame.consumed) := by
    unfold frameText
    simp only [Option.elim_some, Option.elim_none, String.append_assoc, String.empty_append]
  refine ⟨calls, _, [], frame, frameText none notice (f.logs.take frame.consumed), [], rfl, rfl,
    encoded, by rw [List.append_nil], ?_, by simp, partsOf_nil⟩
  intro more
  rw [decodeBlock_encodeFrame law encoded, text]

/-- The repair of the tail keeps the first frame and leaves parts of the others. -/
theorem repaired_header {disk : Option Bytes} (first : HeaderFirst inflate header calls disk) :
    HeaderFirst inflate header calls (applyOps (f.openOps disk true) disk) := by
  obtain ⟨before, first, later, frame, text, rest, split, asked, encoded, rfl, decoded, plain, parts⟩ :=
    first
  have one : Complete Frame [frame.bytes] :=
    complete_cons.mpr ⟨(encodeFrame_frame encoded).1, complete_nil _⟩
  obtain ⟨n, kept⟩ := tailOps_keeps f [frame.bytes] rest one
  simp only [List.flatten_cons, List.flatten_nil, List.append_nil] at kept
  unfold LogFile.openOps
  rw [if_pos rfl, Option.getD_some, kept]
  exact ⟨before, first, later, frame, text, rest.take n, split, asked, encoded, by simp, decoded,
    plain, partsOf_take parts n⟩

/-- A call without a header adds a part of its frame behind all there is. -/
theorem headerFirst_append {disk : Option Bytes} (first : HeaderFirst inflate header calls disk)
    {call : FrameCall} (plain : call.header = none) {part : Bytes} (last : PartOf call part) :
    HeaderFirst inflate header (calls ++ [call]) (disk.map (· ++ part)) := by
  obtain ⟨before, first, later, frame, text, rest, rfl, asked, encoded, rfl, decoded, others, parts⟩ :=
    first
  refine ⟨before, first, later ++ [call], frame, text, rest ++ part, by simp, asked, encoded,
    by simp, decoded, ?_, partsOf_append parts last⟩
  intro other member
  rcases List.mem_append.mp member with old | new
  · exact others other old
  · rw [List.mem_singleton.mp new]
    exact plain

/-- No content to see. -/
def Blank (disk : Option Bytes) : Prop := disk = none ∨ disk = some []

theorem not_blank {disk : Option Bytes} (first : HeaderFirst inflate header calls disk) :
    ¬ Blank disk := by
  obtain ⟨-, -, -, -, -, -, -, -, -, rfl, -⟩ := first
  simp [Blank, MAGIC]

/-- What an attempt behind its opening appends is a part of the frame of its call, and all of it
if the writes succeed. -/
theorem writeFrame_part (f : LogFile) (notice : Option String) (env : AttemptEnv) (has : Bool)
    (content : Bytes) :
    ∃ part, applyOps (f.writeFrame notice env has).ops (some content) = some (content ++ part) ∧
      PartOf ⟨env.deflater, env.rnd, f.logs, f.headerFor has, notice⟩ part ∧
      ∀ frame, encodeFrame env.deflater env.rnd f.logs (f.headerFor has) notice = .ok frame →
        env.io.framePrefix = .done → env.io.payload = .done → part = frame.bytes := by
  rcases writeFrame_cases f notice env has with
    ⟨e, failed, h⟩ | ⟨frame, encoded, ⟨e, k, pieces, part, whole, h⟩ | h⟩
  · refine ⟨[], by rw [h, List.append_nil]; rfl, Or.inl rfl, ?_⟩
    intro frame encoded
    rw [failed] at encoded
    cases encoded
  · refine ⟨pieces.flatten, by rw [h, applyOps_appends], Or.inr ⟨frame, k, encoded, part⟩, ?_⟩
    intro frame' encoded'
    cases encoded.symm.trans encoded'
    exact whole
  · have flat : [frame.framePrefix, frame.payload].flatten = frame.bytes := by
      simp [EncodedFrame.bytes]
    refine ⟨frame.bytes, by rw [h, applyOps_appends, flat],
      Or.inr ⟨frame, frame.bytes.length, encoded, by rw [List.take_length]⟩, ?_⟩
    intro frame' encoded' _ _
    cases encoded.symm.trans encoded'
    rfl

/-- A file that is seen to have content has its header. -/
theorem header_of_seen {disk : Option Bytes}
    (before : HeaderFirst inflate header calls disk ∨ Blank disk) (seen : env.io.sees disk = true) :
    HeaderFirst inflate header calls disk := by
  rcases before with first | blank
  · exact first
  · rw [sees_eq_false env.io blank] at seen
    cases seen

/-- An opening that fails repairs a file that has its header, or leaves a blank one blank. -/
theorem unopened_header {disk : Option Bytes}
    (whole : CreatesWhole f flushInterval notice env disk)
    (before : HeaderFirst inflate header calls disk ∨ Blank disk) (due : f.due flushInterval env.now)
    (came : env.io.cameBack) {e : IoError} {ops : List DiskOp}
    (failed : f.openFile env.io disk (env.io.sees disk) = ⟨ops, .error e⟩) :
    HeaderFirst inflate header calls (applyOps ops disk) ∨ Blank disk ∧ Blank (applyOps ops disk) := by
  cases sees : env.io.sees disk with
  | true =>
    have existing := header_of_seen before sees
    rw [sees] at failed
    rcases openFile_existing f env.io disk with ⟨e', h⟩ | ⟨e', h⟩ | h
    · cases failed.symm.trans h
      exact Or.inl existing
    · cases failed.symm.trans h
      exact Or.inl (repaired_header existing)
    · cases failed.symm.trans h
  | false =>
    rw [sees] at failed
    have cause := whole due came sees
    rcases openFile_new f env.io disk with
      ⟨e', -, h⟩ | ⟨e', created, h⟩ | ⟨created, ⟨e', k, magic, h⟩ | ⟨-, h⟩⟩
    · cases failed.symm.trans h
      exact before.imp id fun blank => ⟨blank, blank⟩
    · cases failed.symm.trans h
      rw [created] at cause
      rcases cause with ⟨_, same⟩ | ⟨blank, -⟩ | ⟨done, -⟩
      · cases same
      · exact Or.inr ⟨blank, Or.inr rfl⟩
      · cases done
    · cases failed.symm.trans h
      rw [created, magic] at cause
      rcases cause with ⟨_, same⟩ | ⟨blank, ⟨_, same⟩ | ⟨_, cut⟩⟩ | ⟨-, done, -⟩
      · cases same
      · cases same
      · cases cut
        exact Or.inr ⟨blank, Or.inr rfl⟩
      · cases done
    · cases failed.symm.trans h

/-- Whole creations leave a file with its header first; up to the first of them the file
stays without content, and no attempt has succeeded. -/
theorem attempt_header (law : Inflates env.deflater inflate) (mine : f.header = header)
    (nonempty : header ≠ "") {disk : Option Bytes} (whole : CreatesWhole f flushInterval notice env disk)
    (before : HeaderFirst inflate header calls disk ∨ Blank disk) :
    let e := f.writeToFile flushInterval notice env disk
    HeaderFirst inflate header
        (calls ++ (frameCall f flushInterval notice env disk).toList) (applyOps e.ops disk) ∨
      Blank disk ∧ Blank (applyOps e.ops disk) ∧ ∀ f' w, e.result ≠ .ok (f', some w) := by
  intro e
  have encodes := attempt_encodes f flushInterval notice env disk
  change Encodes f flushInterval notice env disk _ e.ops e.result at encodes
  generalize frameCall f flushInterval notice env disk = call, e.ops = ops, e.result = result at encodes ⊢
  cases encodes with
  | idle result unwritten =>
    rw [Option.toList_none, List.append_nil]
    exact before.imp id (fun blank => ⟨blank, blank, unwritten⟩)
  | unopened e ops due came failed =>
    rw [Option.toList_none, List.append_nil]
    exact (unopened_header whole before due came failed).imp_right
      fun blank => ⟨blank.1, blank.2, by simp⟩
  | opened due came made =>
    left
    rw [Option.toList_some, applyOps_append]
    cases sees : env.io.sees disk with
    | true =>
      have repaired := repaired_header (f := f) (header_of_seen before sees)
      have ⟨_, _, _, _, _, _, _, _, _, there, _⟩ := repaired
      obtain ⟨part, added, partOf, -⟩ := writeFrame_part f notice env true _
      rw [there, added]
      rw [there] at repaired
      exact headerFirst_append repaired rfl partOf
    | false =>
      obtain ⟨created, magic⟩ := made sees
      obtain ⟨part, added, -, all⟩ := writeFrame_part f notice env false MAGIC
      have cause := whole due came sees
      rw [created, magic] at cause
      rcases cause with ⟨_, failed⟩ | ⟨-, ⟨_, failed⟩ | ⟨_, failed⟩⟩ | ⟨-, -, ⟨frame, encoded⟩, pre, payload⟩
      · cases failed
      · cases failed
      · cases failed
      · change HeaderFirst inflate header _ (applyOps _ (some MAGIC))
        rw [added, all frame encoded pre payload]
        exact headerFirst_new law mine nonempty calls encoded

/-- A frame that was written is the frame of the attempt's call. -/
theorem written_call {f' : LogFile} {w : Written} {disk : Option Bytes}
    (written : (f.writeToFile flushInterval notice env disk).result = .ok (f', some w)) :
    ∃ call, frameCall f flushInterval notice env disk = some call ∧ call.encode = .ok w.frame ∧
      call.header = w.header := by
  have encodes := attempt_encodes f flushInterval notice env disk
  generalize frameCall f flushInterval notice env disk = call,
    (f.writeToFile flushInterval notice env disk).ops = ops,
    (f.writeToFile flushInterval notice env disk).result = result at encodes written
  cases encodes with
  | idle result unwritten => exact absurd written (unwritten f' w)
  | unopened e ops due came failed => cases written
  | opened due came made =>
    refine ⟨_, rfl, ?_⟩
    rcases writeFrame_cases f notice env (env.io.sees disk) with
      ⟨e, -, h⟩ | ⟨frame, encoded, ⟨e, k, pieces, -, -, h⟩ | h⟩
    · rw [h] at written
      cases written
    · rw [h] at written
      cases written
    · rw [h] at written
      cases written
      exact ⟨encoded, rfl⟩

end Attempt

/-! ## Runs -/

section Runs
variable (warsaw : DateTimeUtc → LocalDateTime) (inflate : Bytes → Option Bytes) (header : String)

/-- The calls of `encode_frame` that a step makes for the file. -/
def frameCalls (s : FileState) : FileEvent → List FrameCall
  | .write d flushInterval env => (s.live.bind fun f =>
      frameCall f flushInterval (d.backlogNotice warsaw f env.utcNow) env s.disk).toList
  | _ => []

/-- All of them in a run, in order. -/
def encoded (s : FileState) (events : List FileEvent) : List FrameCall :=
  Machine.projected (FileState.step warsaw) (frameCalls warsaw) s events

/-- The header never changes, nothing deletes the file, and every creation is whole. -/
def Admitted (s : FileState) : FileEvent → Prop
  | .queue d .. => d.header = header
  | .write d flushInterval env => Inflates env.deflater inflate ∧ ∀ f, s.live = some f →
      CreatesWhole f flushInterval (d.backlogNotice warsaw f env.utcNow) env s.disk
  | .delete => False
  | _ => True

/-- The frame that was written is that of one of the calls. -/
def Called (calls : List FrameCall) (w : FileWrite) : Prop :=
  ∃ call ∈ calls, call.encode = .ok w.written.frame ∧ call.header = w.written.header

/-- The `LogFile` has the header, and so has the file, unless nothing was written yet. -/
structure Headed (s : FileState) (past : List FileWrite) (calls : List FrameCall) : Prop where
  mine : ∀ f, s.live = some f → f.header = header
  first : HeaderFirst inflate header calls s.disk ∨ Blank s.disk ∧ past = []
  called : ∀ w ∈ past, Called calls w

variable {warsaw inflate header}

theorem called_append {past : List FileWrite} {calls : List FrameCall}
    (called : ∀ w ∈ past, Called calls w) (more : List FrameCall) :
    ∀ w ∈ past, Called (calls ++ more) w := by
  intro w member
  obtain ⟨call, made, same⟩ := called w member
  exact ⟨call, List.mem_append_left _ made, same⟩

/-- A step without an attempt changes neither the file nor the calls. -/
theorem headed_quiet {s s' : FileState} {past : List FileWrite} {calls : List FrameCall}
    (headed : Headed inflate header s past calls) (mine : ∀ f, s'.live = some f → f.header = header)
    (disk : s'.disk = s.disk) : Headed inflate header s' (past ++ []) (calls ++ []) := by
  rw [List.append_nil, List.append_nil]
  exact ⟨mine, disk ▸ headed.first, headed.called⟩

theorem write_headed (nonempty : header ≠ "") {s : FileState} {f : LogFile} (live : s.live = some f)
    (d : LogDefinition) (flushInterval : Duration) (env : AttemptEnv) {past : List FileWrite}
    {calls : List FrameCall} (law : Inflates env.deflater inflate)
    (whole : CreatesWhole f flushInterval (d.backlogNotice warsaw f env.utcNow) env s.disk)
    (headed : Headed inflate header s past calls) :
    let e := FileEvent.write d flushInterval env
    Headed inflate header (s.step warsaw e).1 (past ++ (s.step warsaw e).2)
      (calls ++ frameCalls warsaw s e) := by
  intro e
  obtain ⟨mine, before, called⟩ := headed
  have attempt := attempt_header law (mine f live) nonempty whole (before.imp id And.left)
  have empty (blank : Blank s.disk) : past = [] :=
    (before.resolve_left (fun first => not_blank first blank)).2
  have made : frameCalls warsaw s e =
      (frameCall f flushInterval (d.backlogNotice warsaw f env.utcNow) env s.disk).toList := by
    simp only [e, frameCalls, live, Option.bind_some]
  rw [made]
  cases result : (FileState.attempt warsaw f d flushInterval env s.disk).result with
  | error err =>
    rw [FileState.step_write_error live result, List.append_nil]
    refine ⟨?_, attempt.imp id (fun h => ⟨h.2.1, empty h.1⟩), called_append called _⟩
    intro f' live'
    cases live'
    exact mine f live
  | ok out =>
    obtain ⟨f', written⟩ := out
    rw [FileState.step_write_ok live result]
    refine ⟨?_, ?_, ?_⟩
    · intro g live'
      cases live'
      exact (writeToFile_header result).trans (mine f live)
    · refine attempt.imp id (fun h => ⟨h.2.1, ?_⟩)
      cases written with
      | none => simpa using empty h.1
      | some w => exact absurd result (h.2.2 f' w)
    · intro w member
      rcases List.mem_append.mp member with old | new
      · exact called_append called _ w old
      · cases written with
        | none => cases new
        | some written =>
          obtain rfl := List.mem_singleton.mp new
          obtain ⟨call, isCall, same⟩ := written_call result
          exact ⟨call, List.mem_append_right _ (by rw [isCall]; exact List.mem_singleton_self _), same⟩

variable (warsaw inflate header)

theorem step_headed (nonempty : header ≠ "") (s : FileState) (event : FileEvent)
    (past : List FileWrite) (calls : List FrameCall) (admitted : Admitted warsaw inflate header s event)
    (headed : Headed inflate header s past calls) :
    Headed inflate header (s.step warsaw event).1 (past ++ (s.step warsaw event).2)
      (calls ++ frameCalls warsaw s event) := by
  cases event with
  | queue d logName path log now =>
    refine headed_quiet headed ?_ rfl
    intro f live
    cases live
    rw [FileState.queue_header]
    exact admitted
  | cleanUp now =>
    exact headed_quiet headed (fun f live => headed.mine f (Option.filter_eq_some_iff.mp live).1) rfl
  | restart => exact headed_quiet headed (fun _ h => (by cases h)) rfl
  | delete => exact absurd admitted id
  | write d flushInterval env =>
    obtain ⟨law, whole⟩ := admitted
    cases live : s.live with
    | some f => exact write_headed nonempty live d flushInterval env law (whole f live) headed
    | none =>
      unfold FileState.step frameCalls
      simp only [live, Option.bind_none, Option.toList_none]
      exact headed_quiet headed headed.mine rfl

/-- A file that did not exist, in a run whose creations are all whole: once an attempt has
succeeded the text of the file starts with the header line, put there by one call of
`encode_frame`. Every call made since then had no header, and behind the first frame there is
nothing but frames of these calls, whole or cut short. The frames that were written are frames of
the calls made. -/
theorem header_once_and_first (nonempty : header ≠ "") (events : List FileEvent)
    (admitted : Machine.Allowed (FileState.step warsaw) (Admitted warsaw inflate header)
      (.start none) events)
    (succeeded : (Machine.run (FileState.step warsaw) (.start none) events).2 ≠ []) :
    let final := Machine.run (FileState.step warsaw) (.start none) events
    let calls := encoded warsaw (.start none) events
    HeaderFirst inflate header calls final.1.disk ∧ ∀ w ∈ final.2, Called calls w := by
  intro final calls
  have headed := Machine.projected_invariant (FileState.step warsaw) (frameCalls warsaw)
    (Headed inflate header)
    (fun s event past calls admitted headed =>
      step_headed warsaw inflate header nonempty s event past calls admitted headed)
    (.start none) [] []
    ⟨fun _ h => (by cases h), Or.inr ⟨Or.inl rfl, rfl⟩, fun _ h => (by cases h)⟩ events admitted
  exact ⟨headed.first.resolve_right (fun h => succeeded h.2), headed.called⟩

end Runs

/-- The magic is written, the first frame is not; the next attempt succeeds. -/
def magicOnly : List FileEvent :=
  [.queue (plainDefinition "h") "a.log" "logs" "entry" 0,
   .write (plainDefinition "h") 0 (storedEnv { allDone with framePrefix := .failed .storageFull 0 }),
   .write (plainDefinition "h") 0 (storedEnv allDone)]

/-- The file decodes, to the entry alone: whatever was encoded, its text does not start with the
header. -/
theorem magic_only_loses_header :
    let final := Machine.run (FileState.step warsawAtEpoch) (.start none) magicOnly
    final.2.length = 1 ∧ ∀ calls, ¬ HeaderFirst inflateStored "h" calls final.1.disk := by
  refine ⟨by decide +kernel, ?_⟩
  intro calls headed
  obtain ⟨-, -, -, frame, text, rest, -, -, -, same, decoded, -⟩ := headed
  have file : (Machine.run (FileState.step warsawAtEpoch) (.start none) magicOnly).1.disk.map
      (fun content => decodeBlock inflateStored (content.drop 10)) = some (some ("entry\n", [])) := by
    decide +kernel
  rw [same, Option.map_some, ← magic_length, List.drop_left, decoded] at file
  have texts : "h" ++ "\n" ++ text = "entry\n" :=
    (Prod.mk.inj (Option.some.inj (Option.some.inj file))).1
  have letters := congrArg (fun s => s.toList.head?) texts
  simp at letters

/-- A creation that fails before the magic, one that succeeds, and a frame behind that, which is
cut short and repaired before another one follows. -/
def wholeCreations : List FileEvent :=
  [.queue (plainDefinition "h") "a.log" "logs" "entry" 0,
   .write (plainDefinition "h") 0 (storedEnv { allDone with create := .failed .storageFull true }),
   .write (plainDefinition "h") 0 (storedEnv allDone),
   .queue (plainDefinition "h") "a.log" "logs" "two" 0,
   .write (plainDefinition "h") 0 (storedEnv { allDone with payload := .failed .storageFull 2 }),
   .write (plainDefinition "h") 0 (storedEnv allDone)]

def headedFrame : EncodedFrame :=
  ⟨[255, 7, 75, 214],
    [2, 188, 131, 125, 10, 90, 237, 13, 144, 248, 204, 33, 88, 244, 56, 73, 142, 127, 109], 1⟩

/-- The three calls of that run. -/
theorem header_once_and_first_whole :
    let final := Machine.run (FileState.step warsawAtEpoch) (.start none) wholeCreations
    let calls := encoded warsawAtEpoch (.start none) wholeCreations
    calls.map FrameCall.header = [some "h", none, none] ∧
      HeaderFirst inflateStored "h" calls final.1.disk ∧ ∀ w ∈ final.2, Called calls w := by
  have failed (f : LogFile) (notice : Option String) :
      CreatesWhole f 0 notice (storedEnv { allDone with create := .failed .storageFull true }) none :=
    fun _ _ _ => Or.inr (Or.inl ⟨Or.inl rfl, Or.inl ⟨_, rfl⟩⟩)
  have seen (f : LogFile) (notice : Option String) (io : WriteIo) (disk : Option Bytes)
      (sees : io.sees disk = true) : CreatesWhole f 0 notice (storedEnv io) disk := by
    intro _ _ unseen
    cases sees.symm.trans unseen
  refine ⟨by decide +kernel, ?_⟩
  apply header_once_and_first warsawAtEpoch inflateStored "h" (by decide) wholeCreations
  · refine ⟨rfl, ⟨storedDeflater_inflates, fun f _ => failed f _⟩,
      ⟨storedDeflater_inflates, fun f live => ?_⟩, rfl,
      ⟨storedDeflater_inflates, fun f _ => seen f _ _ _ (by decide +kernel)⟩,
      ⟨storedDeflater_inflates, fun f _ => seen f _ _ _ (by decide +kernel)⟩, trivial⟩
    cases live
    exact fun _ _ _ => Or.inr (Or.inr ⟨rfl, rfl, ⟨headedFrame, by decide +kernel⟩, rfl, rfl⟩)
  · decide +kernel

end OpLog.Guarantees.Header
