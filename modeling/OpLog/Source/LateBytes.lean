import OpLog.Source.Outcome

/-!
# Bytes of others in the middle of an attempt

`timeout` stops waiting for a write, it does not stop the write: what is left of it may still
land at the end of the file later on, and so may the bytes of any other writer. `Others` are
the bytes that land while an attempt on a file with content is under way, each at a point
between two calls of it; with none of them the attempt is `LogFile.writeToFile`
(`writeToFileAmong_none`). Bytes that land in a file while it is being created, as they can in
an empty one that a late write has open, are left out.
-/
namespace OpLog.Source

structure Others where
  /-- behind the first length check, so that the walk does not see them -/
  walk : Bytes
  /-- between the second length check and `set_len` -/
  cut : Bytes
  /-- ahead of the frame -/
  opened : Bytes
  /-- between the prefix and the payload -/
  within : Bytes

def Others.none : Others := ⟨[], [], [], []⟩

/-- Bytes of others at the end of the file. -/
def landing (bytes : Bytes) : Effect Unit := ⟨if bytes.isEmpty then [] else [.append bytes], .ok ()⟩

/-- The walk reads as many bytes as the first length check found. -/
def cutInterruptedTailUpToAmong (io : TailIo) (others : Others) (content : Bytes) (maxLen : Nat) :
    Effect Unit := do
  Effect.call io.openFile
  Effect.call io.metadata
  let len := content.length
  if len > maxLen then return ()
  else do
    Effect.call io.read
    landing others.walk
    let cut ← Effect.call (truncatedFrameStart ⟨content ++ others.walk, 0⟩ len)
    match cut with
    | none => return ()
    | some cut => do
      Effect.call io.metadataAgain
      if (content ++ others.walk).length ≠ len then return ()
      else do
        landing others.cut
        setLen io.setLen cut

def cutInterruptedTailAmong (io : TailIo) (others : Others) (content : Bytes) : Effect Unit :=
  let check := cutInterruptedTailUpToAmong io others content TAIL_CHECK_MAX_LEN
  ⟨check.ops, do io.join; check.result⟩

def LogFile.openFileAmong (f : LogFile) (io : WriteIo) (others : Others) (content : Option Bytes)
    (hasContent : Bool) : Effect Unit :=
  if hasContent then do
    if f.tailVerified then pure () else cutInterruptedTailAmong io.tail others (content.getD [])
    Effect.call io.openAppend
  else do
    createFile io.create
    writeAll io.magic MAGIC

def LogFile.writeToFileAmong (f : LogFile) (flushInterval : Duration) (backlogNotice : Option String)
    (env : AttemptEnv) (others : Others) (content : Option Bytes) :
    Effect (LogFile × Option Written) :=
  if f.logs.isEmpty then
    pure ({ f with timeOfFirstAdditionOfLogAfterWrite := none }, none)
  else if f.early flushInterval env.now then pure (f, none)
  else do
    let _ ← Effect.await env.io.createDirAll
    let metadata ← Effect.await env.io.metadata
    let hasContent := hasContent metadata content
    f.openFileAmong env.io others content hasContent
    let header := if !hasContent && !f.header.isEmpty then some f.header else none
    let frame ← Effect.call (encodeFrame env.deflater env.rnd f.logs header backlogNotice)
    landing (if hasContent then others.opened else [])
    writeAll env.io.framePrefix frame.framePrefix
    landing (if hasContent then others.within else [])
    writeAll env.io.payload frame.payload
    Effect.call env.io.flush
    return (f.afterWrite frame.consumed,
      some { header, notice := backlogNotice, entries := f.logs.take frame.consumed, frame })

/-! ## Without others -/

theorem landing_nil {α : Type} (next : Unit → Effect α) : (landing [] >>= next) = next () := by
  rw [Effect.bind_ok rfl]
  rfl

theorem cutInterruptedTailUpToAmong_none (io : TailIo) (content : Bytes) (maxLen : Nat) :
    cutInterruptedTailUpToAmong io .none content maxLen =
      cutInterruptedTailUpTo io content content maxLen := by
  unfold cutInterruptedTailUpToAmong Others.none
  simp only [List.append_nil, landing_nil]
  rfl

theorem writeToFileAmong_none (f : LogFile) (flushInterval : Duration) (backlogNotice : Option String)
    (env : AttemptEnv) (content : Option Bytes) :
    f.writeToFileAmong flushInterval backlogNotice env .none content =
      f.writeToFile flushInterval backlogNotice env content := by
  have opened : Others.none.opened = [] := rfl
  have within : Others.none.within = [] := rfl
  unfold LogFile.writeToFileAmong LogFile.writeToFile LogFile.openFileAmong LogFile.openFile
    cutInterruptedTailAmong cutInterruptedTail
  simp only [cutInterruptedTailUpToAmong_none, opened, within, ite_self, landing_nil]

end OpLog.Source
