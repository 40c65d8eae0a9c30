import OpLog.Source.EncodeFrame

/-!
# The tail check

`truncated_frame_start` and `cut_interrupted_tail_up_to`, write_to_file.rs:59-157. The
reader is a cursor over the file's bytes; buffering it changes which bytes are fetched
from the disk, not which bytes a read returns. Failures of the reads themselves are an
outcome of the enclosing check (`TailIo.read`).
-/
namespace OpLog.Source

structure Reader where
  bytes : Bytes
  offset : Nat
  deriving DecidableEq, Repr

/-- `read_exact` into a buffer of `n` bytes. -/
def Reader.readExact (r : Reader) (n : Nat) : IoResult (Bytes × Reader) :=
  if r.offset + n ≤ r.bytes.length then
    .ok ((r.bytes.drop r.offset).take n, { r with offset := r.offset + n })
  else .error .unexpectedEof

/-- `seek_relative`; a seek past the end is not an error, one before the start is. -/
def Reader.seekRelative (r : Reader) (delta : Int) : IoResult Reader :=
  if 0 ≤ r.offset + delta then .ok { r with offset := (r.offset + delta).toNat }
  else .error .invalidInput

/-- How the inner loop over the size bytes ends. -/
inductive SizeScan where
  /-- the file ends inside the prefix -/
  | truncated
  /-- more than five size bytes -/
  | oversized
  /-- the size, and the index of the byte after it -/
  | complete (size i : Nat)
  deriving DecidableEq, Repr

/-- The inner loop, over the bytes of `prefix` from index `i` to `available`. -/
def scanSize : Bytes → Nat → Nat → Nat → SizeScan
  | [], _, _, _ => .truncated
  | byte :: rest, i, shift, size =>
    let b := byte ^^^ 0xc5
    let i := i + 1
    let size := size ||| ((b &&& 0x7f).toNat <<< shift)
    if b &&& 0x80 = 0 then .complete size i
    else
      let shift := shift + 7
      if shift > 28 then .oversized else scanSize rest i shift size

/-- The outer loop. Each round moves `pos` forward, so `fuel` above `len - pos` is never
used up. -/
def walkFrames : Nat → Nat → Nat → Reader → IoResult (Option Nat)
  | 0, _, _, _ => .error (.other "out of fuel")
  | fuel + 1, len, pos, reader =>
    if pos < len then do
      let available := min 8 (len - pos)
      let (pre, reader) ← reader.readExact available
      if pre.head? ≠ some 0xff then return none
      else match scanSize (pre.drop 3) 3 0 0 with
        | .truncated => return some pos
        | .oversized => return none
        | .complete size i =>
          let next := pos + i + size
          if next > len then return some pos
          else do
            let reader ← reader.seekRelative ((next : Int) - ((pos + available : Nat) : Int))
            walkFrames fuel len next reader
    else return none

def truncatedFrameStart (reader : Reader) (len : Nat) : IoResult (Option Nat) :=
  if len < MAGIC.length then .ok none
  else do
    let (magic, reader) ← reader.readExact MAGIC.length
    if magic ≠ MAGIC then return none
    else walkFrames (len + 1) len MAGIC.length reader

/-- Outcomes of the calls of one tail check: opening the file for reading and writing,
asking its length, the reads of the walk, asking the length again, `set_len`, and the
await of the blocking task that ran them. -/
structure TailIo where
  openFile : IoResult Unit
  metadata : IoResult Unit
  read : IoResult Unit
  metadataAgain : IoResult Unit
  setLen : IoResult Unit
  join : IoResult Unit

def TAIL_CHECK_MAX_LEN : Nat := 64 * 1024 * 1024

/-- `again` is the content at the second length check; it differs from `content` only if
a write that timed out earlier is still running. -/
def cutInterruptedTailUpTo (io : TailIo) (content again : Bytes) (maxLen : Nat) : Effect Unit := do
  Effect.call io.openFile
  Effect.call io.metadata
  let len := content.length
  if len > maxLen then return ()
  else do
    Effect.call io.read
    let cut ← Effect.call (truncatedFrameStart ⟨content, 0⟩ len)
    match cut with
    | none => return ()
    | some cut => do
      Effect.call io.metadataAgain
      if again.length ≠ len then return ()
      else setLen io.setLen cut

/-- The blocking task runs to its end; what can still fail is the await of it. -/
def cutInterruptedTail (io : TailIo) (content : Bytes) : Effect Unit :=
  let check := cutInterruptedTailUpTo io content content TAIL_CHECK_MAX_LEN
  ⟨check.ops, do io.join; check.result⟩

end OpLog.Source
