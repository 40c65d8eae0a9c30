import OpLog.Source.EncodeFrame

/-!
# A compressor to run the model with

The zlib stream of level 0 for up to 65535 bytes: header, one stored block, Adler-32.
`storedDeflater` is a `Deflater` that emits it and `inflateStored` reads it back, so that
results which take the compressor as a parameter can be evaluated on concrete input.
-/
namespace OpLog.Format
open Source

def adler32 (data : Bytes) : Nat :=
  let (a, b) := data.foldl
    (fun (a, b) byte => let a := (a + byte.toNat) % 65521; (a, (b + a) % 65521)) (1, 0)
  b * 65536 + a

/-- The four bytes of a 32-bit number, high byte first. -/
def bigEndian (n : Nat) : Bytes :=
  [UInt8.ofNat (n >>> 24), UInt8.ofNat (n >>> 16), UInt8.ofNat (n >>> 8), UInt8.ofNat n]

/-- A stored block's length and its complement, low byte first. -/
def blockHeader (len : Nat) : Bytes :=
  let lo := UInt8.ofNat len
  let hi := UInt8.ofNat (len >>> 8)
  [0x01, lo, hi, ~~~lo, ~~~hi]

def storedStream (data : Bytes) : Bytes :=
  [0x78, 0x01] ++ blockHeader data.length ++ data ++ bigEndian (adler32 data)

def storedDeflater : Deflater where
  writeAll _ := .ok ()
  emitted _ := 0
  finish written :=
    if written.flatten.length ≤ 65535 then .ok (storedStream written.flatten)
    else .error (.other "more than one stored block")

def inflateStored : Bytes → Option Bytes
  | 0x78 :: 0x01 :: 0x01 :: lo :: hi :: nlo :: nhi :: rest =>
    let len := lo.toNat + 256 * hi.toNat
    let data := rest.take len
    if nlo = ~~~lo ∧ nhi = ~~~hi ∧ data.length = len ∧
        rest.drop len = bigEndian (adler32 data) then some data
    else none
  | _ => none

theorem inflateStored_storedStream (data : Bytes) (fits : data.length ≤ 65535) :
    inflateStored (storedStream data) = some data := by
  have len : (UInt8.ofNat data.length).toNat + 256 * (UInt8.ofNat (data.length >>> 8)).toNat =
      data.length := by
    simp only [UInt8.toNat_ofNat', Nat.shiftRight_eq_div_pow]
    omega
  simp only [storedStream, blockHeader, List.cons_append, List.nil_append, inflateStored, len,
    List.take_left, List.drop_left, and_self, if_true]

theorem storedDeflater_payload {rnd : UInt8} {logs : List String} {header notice : Option String}
    {frame : EncodedFrame} (encoded : encodeFrame storedDeflater rnd logs header notice = .ok frame) :
    frame.payload.length < 2 ^ 35 := by
  obtain ⟨-, -, written, a, finished, -, payload, -⟩ := encodeFrame_spec encoded
  rw [payload, obfuscate_length]
  simp only [storedDeflater] at finished
  split at finished
  · cases finished
    simp only [storedStream, blockHeader, bigEndian, List.length_append, List.length_cons,
      List.length_nil]
    omega
  · cases finished

/-! ## A compressor that never fails -/

/-- It does not compress: what goes in comes out. -/
def plainDeflater : Deflater where
  writeAll _ := .ok ()
  emitted _ := 0
  finish written := .ok written.flatten

theorem chunkLoop_plain (fuel : Nat) (logs : List String) (written : List Bytes) (consumed : Nat) :
    ∃ out, chunkLoop plainDeflater fuel logs written consumed = .ok out := by
  induction fuel generalizing logs written consumed with
  | zero => exact ⟨_, rfl⟩
  | succ fuel ih =>
    unfold chunkLoop
    split
    rename_i bytes consumed' logs' chunk
    by_cases empty : bytes.isEmpty
    · exact ⟨_, by rw [if_pos empty]⟩
    · rw [if_neg empty]
      exact ih logs' (written ++ [bytes]) consumed'

theorem encodeFrame_plain (rnd : UInt8) (logs : List String) (header notice : Option String) :
    ∃ frame, encodeFrame plainDeflater rnd logs header notice = .ok frame := by
  have line (text : Option String) (written : List Bytes) :
      ∃ out, writeLine plainDeflater text written = .ok out := by
    cases text <;> exact ⟨_, rfl⟩
  obtain ⟨headed, hheaded⟩ := line header []
  obtain ⟨noticed, hnoticed⟩ := line notice headed
  obtain ⟨⟨chunks, consumed⟩, hchunks⟩ := chunkLoop_plain (logs.length + 1) logs noticed 0
  have finished : plainDeflater.finish chunks = .ok chunks.flatten := rfl
  simp only [encodeFrame, hheaded, hnoticed, hchunks, finished, bind, Except.bind, pure, Except.pure]
  exact ⟨_, rfl⟩

end OpLog.Format
