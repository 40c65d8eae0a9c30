import OpLog.Source.Io

/-!
# `encode_frame`

write_to_file.rs:257-371. The compressor is not part of the repository: `Deflater` is
what the worker uses of one `ZlibEncoder` over a `Vec`, as functions of the slices
written so far. `get_ref().len()` may be any number at any cut-off test, and the writes
and the final `finish` may fail.
-/
namespace OpLog.Source

/-- Every log file starts with this line; frames follow it. `b"OPLog 1.0\n"`. -/
def MAGIC : Bytes := [0x4f, 0x50, 0x4c, 0x6f, 0x67, 0x20, 0x31, 0x2e, 0x30, 0x0a]

/-- The bytes of a text: Rust strings are UTF-8. -/
def utf8 (text : String) : Bytes := text.toByteArray.data.toList

/-- `str::len`. -/
def byteLen (text : String) : Nat := (utf8 text).length

/-- One `ZlibEncoder`; the argument of each function is the slices written to it so far. -/
structure Deflater where
  writeAll : List Bytes → IoResult Unit
  emitted : List Bytes → Nat
  finish : List Bytes → IoResult Bytes

def CHUNK_BYTES : Nat := 64000
def PAYLOAD_BYTES : Nat := 2 * 1024 * 1024

/-- A text and a newline, as they go into the stream. -/
def line (text : String) : Bytes := utf8 text ++ [0x0a]

/-- `(rnd as u32).wrapping_mul(size as u32) & 0xFFF`. -/
def xorSeed (rnd : UInt8) (size : Nat) : UInt32 :=
  rnd.toUInt32 * UInt32.ofNat size &&& 0xFFF

/-- The inner loop: `logs` are the entries from index `consumed` on. Returns the chunk,
the index it stopped at and the entries from there on. -/
def fillChunk : List String → Bytes → Nat → Bytes × Nat × List String
  | [], bytes, consumed => (bytes, consumed, [])
  | log :: rest, bytes, consumed =>
    let bytes := bytes ++ line log
    if bytes.length > CHUNK_BYTES then (bytes, consumed + 1, rest)
    else fillChunk rest bytes (consumed + 1)

/-- The outer loop, over the entries not yet consumed. Every round but the last consumes
an entry, so `fuel` above the number of entries is never used up (`chunkLoop_fuel`). -/
def chunkLoop (deflater : Deflater) : Nat → List String → List Bytes → Nat →
    IoResult (List Bytes × Nat)
  | 0, _, written, consumed => .ok (written, consumed)
  | fuel + 1, logs, written, consumed =>
    match fillChunk logs [] consumed with
    | (bytes, consumed, logs) =>
      if bytes.isEmpty then .ok (written, consumed)
      else do
        deflater.writeAll (written ++ [bytes])
        if deflater.emitted (written ++ [bytes]) > PAYLOAD_BYTES then
          return (written ++ [bytes], consumed)
        chunkLoop deflater fuel logs (written ++ [bytes]) consumed

/-- `encoder.write_all(text)` and `encoder.write_all(b"\n")`, if there is a text. -/
def writeLine (deflater : Deflater) (text : Option String) (written : List Bytes) :
    IoResult (List Bytes) :=
  match text with
  | none => .ok written
  | some text => do
    deflater.writeAll (written ++ [utf8 text])
    deflater.writeAll (written ++ [utf8 text, [0x0a]])
    return written ++ [utf8 text, [0x0a]]

/-- The obfuscation loop: the checksum of the bytes and the bytes under the keystream. -/
def obfuscate : Bytes → UInt32 → UInt32 → Bytes × UInt32
  | [], sum, _ => ([], sum)
  | byte :: rest, sum, xor =>
    let sum := (sum + byte.toUInt32) &&& 0xff
    let xor := (xor * 2903 + 71) &&& 0xfff
    let (out, final) := obfuscate rest sum xor
    ((byte ^^^ (xor &&& 0xff).toUInt8) :: out, final)

/-- The size loop, seven bits at a time, low group first. `fuel` bounds the number of
groups after the first; the size itself is more than enough. -/
def encodeSize : Nat → Nat → Bytes
  | 0, size => [UInt8.ofNat (size &&& 0x7F) ^^^ 0xc5]
  | fuel + 1, size =>
    let b := UInt8.ofNat (size &&& 0x7F)
    let size := size >>> 7
    if size ≠ 0 then ((b ||| 0x80) ^^^ 0xc5) :: encodeSize fuel size
    else [b ^^^ 0xc5]

/-- What `encode_frame` returns. -/
structure EncodedFrame where
  framePrefix : Bytes
  payload : Bytes
  consumed : Nat
  deriving DecidableEq, Repr

def EncodedFrame.bytes (f : EncodedFrame) : Bytes := f.framePrefix ++ f.payload

def encodeFrame (deflater : Deflater) (rnd : UInt8) (logs : List String)
    (header notice : Option String) : IoResult EncodedFrame := do
  let written ← writeLine deflater header []
  let written ← writeLine deflater notice written
  let (written, consumed) ← chunkLoop deflater (logs.length + 1) logs written 0
  let a ← deflater.finish written
  let size := a.length
  let (payload, sum) := obfuscate a 0 (xorSeed rnd size)
  return {
    framePrefix := [0xff, rnd, sum.toUInt8 ^^^ 0x5c] ++ encodeSize size size
    payload
    consumed }

/-! ## What the loops write and consume -/

theorem utf8_append (s t : String) : utf8 (s ++ t) = utf8 s ++ utf8 t := by
  simp [utf8, String.toByteArray_append]

/-- The newline-terminated lines of an optional text and of the entries. -/
def optionLine (text : Option String) : Bytes := text.elim [] line

def entryLines (logs : List String) : Bytes := logs.flatMap line

theorem writeLine_flatten {deflater : Deflater} {text : Option String} {written out : List Bytes}
    (h : writeLine deflater text written = .ok out) :
    out.flatten = written.flatten ++ optionLine text := by
  cases text with
  | none =>
    cases h
    simp [optionLine]
  | some text =>
    simp only [writeLine, bind, Except.bind, pure, Except.pure] at h
    split at h
    · cases h
    · split at h
      · cases h
      · cases h
        simp [optionLine, line]

/-- One chunk: the next `n` entries, at least one if there is one. -/
theorem fillChunk_spec (logs : List String) (bytes : Bytes) (consumed : Nat) :
    ∃ n, n ≤ logs.length ∧ (logs ≠ [] → 0 < n) ∧
      fillChunk logs bytes consumed =
        (bytes ++ entryLines (logs.take n), consumed + n, logs.drop n) := by
  induction logs generalizing bytes consumed with
  | nil => exact ⟨0, Nat.le_refl 0, fun h => absurd rfl h, by simp [fillChunk, entryLines]⟩
  | cons log rest ih =>
    simp only [fillChunk]
    split
    · exact ⟨1, by simp, fun _ => Nat.one_pos, by simp [entryLines]⟩
    · obtain ⟨n, bound, -, eq⟩ := ih (bytes ++ line log) (consumed + 1)
      refine ⟨n + 1, by simpa using bound, fun _ => Nat.succ_pos n, ?_⟩
      rw [eq]
      simp only [entryLines, List.take_succ_cons, List.flatMap_cons, List.append_assoc,
        List.drop_succ_cons, Prod.mk.injEq, true_and, and_true]
      omega

theorem entryLines_isEmpty (logs : List String) : (entryLines logs).isEmpty = logs.isEmpty := by
  cases logs with
  | nil => rfl
  | cons log rest => simp [entryLines, line]

/-- All chunks together: the next `n` entries, at least one if there is one and any fuel. -/
theorem chunkLoop_spec (deflater : Deflater) (fuel : Nat) (logs : List String)
    (written : List Bytes) (consumed : Nat) (out : List Bytes × Nat)
    (h : chunkLoop deflater fuel logs written consumed = .ok out) :
    ∃ n, n ≤ logs.length ∧ (logs ≠ [] → 0 < fuel → 0 < n) ∧ out.2 = consumed + n ∧
      out.1.flatten = written.flatten ++ entryLines (logs.take n) := by
  induction fuel generalizing logs written consumed with
  | zero =>
    cases h
    exact ⟨0, Nat.zero_le _, fun _ h => absurd h (Nat.lt_irrefl 0), rfl, by simp [entryLines]⟩
  | succ fuel ih =>
    obtain ⟨n, bound, progress, chunk⟩ := fillChunk_spec logs [] consumed
    unfold chunkLoop at h
    simp only [chunk, List.nil_append] at h
    split at h
    · rename_i empty
      rw [entryLines_isEmpty, List.isEmpty_iff] at empty
      cases h
      have none_left : logs = [] := by
        by_contra some_left
        have := progress some_left
        rw [List.take_eq_nil_iff] at empty
        rcases empty with empty | empty
        · omega
        · exact some_left empty
      subst none_left
      simp only [List.length_nil, Nat.le_zero_eq] at bound
      exact ⟨0, Nat.le_refl 0, fun h => absurd rfl h, by simp [bound], by simp [entryLines]⟩
    · simp only [bind, Except.bind, pure, Except.pure] at h
      split at h
      · cases h
      · split at h
        · cases h
          exact ⟨n, bound, fun some_left _ => progress some_left, rfl, by simp⟩
        · obtain ⟨m, bound', -, count, bytes⟩ := ih _ _ _ h
          rw [List.length_drop] at bound'
          refine ⟨n + m, by omega, fun some_left _ => by have := progress some_left; omega,
            by omega, ?_⟩
          rw [bytes, List.take_add]
          simp [entryLines]

/-- The fuel of the outer loop never runs out: more of it changes nothing. -/
theorem chunkLoop_fuel (deflater : Deflater) (fuel : Nat) (logs : List String)
    (written : List Bytes) (consumed : Nat) (enough : logs.length < fuel) :
    chunkLoop deflater (fuel + 1) logs written consumed =
      chunkLoop deflater fuel logs written consumed := by
  induction fuel generalizing logs written consumed with
  | zero => omega
  | succ fuel ih =>
    obtain ⟨n, bound, progress, chunk⟩ := fillChunk_spec logs [] consumed
    unfold chunkLoop
    simp only [chunk, List.nil_append]
    by_cases empty : (entryLines (logs.take n)).isEmpty
    · simp only [empty, if_true]
    · have shorter : (logs.drop n).length < fuel := by
        have some_left : logs ≠ [] := by
          rintro rfl
          simp [entryLines] at empty
        have := progress some_left
        rw [List.length_drop]
        omega
      simp only [empty, ih _ _ _ shorter]

/-- The finished stream of a frame holds the header line, the notice line and the
consumed entries; the frame consumes at least one entry of a non-empty queue. -/
theorem encodeFrame_spec {deflater : Deflater} {rnd : UInt8} {logs : List String}
    {header notice : Option String} {frame : EncodedFrame}
    (h : encodeFrame deflater rnd logs header notice = .ok frame) :
    frame.consumed ≤ logs.length ∧ (logs ≠ [] → 0 < frame.consumed) ∧
    ∃ written a, deflater.finish written = .ok a ∧
      written.flatten =
        optionLine header ++ optionLine notice ++ entryLines (logs.take frame.consumed) ∧
      frame.payload = (obfuscate a 0 (xorSeed rnd a.length)).1 ∧
      frame.framePrefix =
        [0xff, rnd, (obfuscate a 0 (xorSeed rnd a.length)).2.toUInt8 ^^^ 0x5c] ++
          encodeSize a.length a.length := by
  simp only [encodeFrame, bind, Except.bind, pure, Except.pure] at h
  split at h
  · cases h
  · rename_i headed hheaded
    split at h
    · cases h
    · rename_i noticed hnoticed
      split at h
      · cases h
      · rename_i chunks hchunks
        split at h
        · cases h
        · rename_i a finished
          cases h
          obtain ⟨n, bound, progress, count, bytes⟩ := chunkLoop_spec _ _ _ _ _ _ hchunks
          rw [Nat.zero_add] at count
          dsimp only
          refine ⟨by omega, fun some_left => ?_, chunks.1, a, finished, ?_, rfl, rfl⟩
          · have := progress some_left (Nat.succ_pos _)
            simpa only [count] using this
          · rw [bytes, writeLine_flatten hnoticed, writeLine_flatten hheaded]
            simp only [count, List.flatten_nil, List.nil_append]

/-! ## Sizes -/

@[simp] theorem obfuscate_length (a : Bytes) (sum xor : UInt32) :
    (obfuscate a sum xor).1.length = a.length := by
  induction a generalizing sum xor with
  | nil => rfl
  | cons byte rest ih => simp only [obfuscate, List.length_cons, ih]

end OpLog.Source
