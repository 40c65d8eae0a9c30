import OpLog.Source.EncodeFrame

/-!
# `decode_oplog_file`

The reference reader of write_to_file.rs:574-624: magic, then blocks of marker, random
byte, checksum, size, payload. `none` is a failed assertion or an index past the end.
It computes in unbounded integers, as the comment on `xor_seed` says an external reader
does. `inflate` is the decompressor, which is not part of the repository.
-/
namespace OpLog.Source

def readSize : Bytes → Nat → Nat → Option (Nat × Bytes)
  | [], _, _ => none
  | byte :: rest, shift, size =>
    let b := byte ^^^ 0xc5
    let size := size ||| ((b &&& 0x7f).toNat <<< shift)
    if b &&& 0x80 = 0 then some (size, rest) else readSize rest (shift + 7) size

/-- The keystream undone, and the checksum of what comes out. -/
def deobfuscate : Bytes → Nat → Nat → Bytes × Nat
  | [], _, sum => ([], sum)
  | byte :: rest, xor, sum =>
    let xor := (xor * 2903 + 71) % 0x1000
    let byte := byte ^^^ UInt8.ofNat (xor % 0x100)
    let sum := (sum + byte.toNat) % 0x100
    let (out, final) := deobfuscate rest xor sum
    (byte :: out, final)

/-- One block: its text, and the bytes after it. -/
def decodeBlock (inflate : Bytes → Option Bytes) : Bytes → Option (String × Bytes)
  | marker :: rnd :: sum :: raw =>
    if marker ≠ 0xff then none
    else do
      let (size, raw) ← readSize raw 0 0
      if raw.length < size then none
      else do
        let (payload, check) := deobfuscate (raw.take size) (rnd.toNat * size % 0x1000) 0
        if UInt8.ofNat check ≠ sum ^^^ 0x5c then none
        else do
          let inflated ← inflate payload
          let text ← String.fromUTF8? ⟨inflated.toArray⟩
          return (text, raw.drop size)
  | _ => none

/-- Every block takes at least one byte, so the length of the input is enough fuel. -/
def decodeBlocks (inflate : Bytes → Option Bytes) : Nat → Bytes → Option (List String)
  | _, [] => some []
  | 0, _ => none
  | fuel + 1, raw => do
    let (text, raw) ← decodeBlock inflate raw
    let texts ← decodeBlocks inflate fuel raw
    return text :: texts

def decodeOplogFile (inflate : Bytes → Option Bytes) (raw : Bytes) : Option (List String) :=
  if raw.take MAGIC.length = MAGIC then
    decodeBlocks inflate raw.length (raw.drop MAGIC.length)
  else none

end OpLog.Source
