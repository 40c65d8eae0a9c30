import OpLog.Format.Frame
import OpLog.Format.StoredZlib
import OpLog.Source.DecodeFile

/-!
# Decoding undoes encoding

A file of frames from `encode_frame` is read back by the reference reader, frame by
frame, as the header line, the notice line and the consumed entries of each call. The
compressor enters through one law: inflating a finished stream returns the bytes that
were written into it.
-/
namespace OpLog.Guarantees.RoundTrip
open Library.GroupCode Format Source

/-- Inflating what `finish` returns gives back the slices written before it. -/
def Inflates (deflater : Deflater) (inflate : Bytes → Option Bytes) : Prop :=
  ∀ written out, deflater.finish written = .ok out → inflate out = some written.flatten

theorem storedDeflater_inflates : Inflates storedDeflater inflateStored := by
  intro written out finished
  simp only [storedDeflater] at finished
  split at finished
  · rename_i fits
    cases finished
    exact inflateStored_storedStream written.flatten fits
  · cases finished

/-- The text of a frame: the header line, the notice line, then the entries' lines. -/
def frameText (header notice : Option String) (entries : List String) : String :=
  header.elim "" (· ++ "\n") ++ notice.elim "" (· ++ "\n") ++
    entries.foldr (fun entry text => entry ++ "\n" ++ text) ""

theorem utf8_newline (s : String) : utf8 (s ++ "\n") = line s := by
  rw [utf8_append, line]
  rfl

theorem utf8_frameText (header notice : Option String) (entries : List String) :
    utf8 (frameText header notice entries) =
      optionLine header ++ optionLine notice ++ entryLines entries := by
  have optional : ∀ text : Option String, utf8 (text.elim "" (· ++ "\n")) = optionLine text := by
    intro text
    cases text with
    | none => rfl
    | some text => exact utf8_newline text
  have rest : utf8 (entries.foldr (fun entry text => entry ++ "\n" ++ text) "") =
      entryLines entries := by
    induction entries with
    | nil => rfl
    | cons entry entries ih =>
      simp only [List.foldr_cons, utf8_append _ (List.foldr _ _ _), ih, utf8_newline]
      rfl
  unfold frameText
  rw [utf8_append, utf8_append, optional, optional, rest]

theorem fromUTF8_utf8 (s : String) : String.fromUTF8? ⟨(utf8 s).toArray⟩ = some s := by
  unfold utf8
  simp only [Array.toArray_toList]
  exact dif_pos s.isValidUTF8

/-! ## Keystream and checksum -/

theorem and_mask (n : Nat) : n &&& 4095 = n % 4096 := Nat.and_two_pow_sub_one_eq_mod n 12

theorem xorSeed_toNat (rnd : UInt8) (size : Nat) :
    (xorSeed rnd size).toNat = rnd.toNat * size % 0x1000 := by
  unfold xorSeed
  rw [UInt32.toNat_and, UInt32.toNat_mul, UInt8.toNat_toUInt32, UInt32.toNat_ofNat']
  change _ &&& 4095 = _
  rw [and_mask, Nat.mod_mod_of_dvd _ (by decide), Nat.mul_mod, Nat.mod_mod_of_dvd _ (by decide),
    ← Nat.mul_mod]

/-- The mask keeps the low bits only, so 32-bit wrapping leaves no trace. -/
theorem keystream_toNat (xor : UInt32) :
    ((xor * 2903 + 71) &&& 0xfff).toNat = (xor.toNat * 2903 + 71) % 0x1000 := by
  rw [UInt32.toNat_and, UInt32.toNat_add, UInt32.toNat_mul]
  change _ &&& 4095 = _
  rw [and_mask]
  simp only [UInt32.reduceToNat]
  omega

theorem checksum_toNat (sum : UInt32) (byte : UInt8) :
    ((sum + byte.toUInt32) &&& 0xff).toNat = (sum.toNat + byte.toNat) % 0x100 := by
  rw [UInt32.toNat_and, UInt32.toNat_add, UInt8.toNat_toUInt32]
  change _ &&& 255 = _
  rw [show 255 = 2 ^ 8 - 1 from rfl, Nat.and_two_pow_sub_one_eq_mod]
  omega

theorem keybyte (xor : UInt32) : (xor &&& 0xff).toUInt8 = UInt8.ofNat (xor.toNat % 0x100) := by
  apply UInt8.toNat_inj.mp
  rw [UInt32.toNat_toUInt8, UInt32.toNat_and, UInt8.toNat_ofNat']
  change (_ &&& 255) % _ = _
  rw [show 255 = 2 ^ 8 - 1 from rfl, Nat.and_two_pow_sub_one_eq_mod]

/-- The reader's keystream undoes the writer's, and both arrive at one checksum. -/
theorem deobfuscate_obfuscate (a : Bytes) (sum xor : UInt32) :
    deobfuscate (obfuscate a sum xor).1 xor.toNat sum.toNat =
      (a, (obfuscate a sum xor).2.toNat) := by
  induction a generalizing sum xor with
  | nil => rfl
  | cons byte rest ih =>
    have next := ih ((sum + byte.toUInt32) &&& 0xff) ((xor * 2903 + 71) &&& 0xfff)
    rw [keystream_toNat, checksum_toNat] at next
    simp only [obfuscate, deobfuscate, keybyte, keystream_toNat, UInt8.xor_assoc, UInt8.xor_self,
      UInt8.xor_zero, next]

/-! ## Sizes -/

/-- The reader's size loop, started behind `k` groups of value `acc`. -/
theorem readSize_size {size : Bytes} {n : Nat} (h : Size size n) (rest : Bytes) (k acc : Nat)
    (fits : acc < 2 ^ (7 * k)) :
    readSize (size ++ rest) (7 * k) acc = some (acc + n * 2 ^ (7 * k), rest) := by
  induction h generalizing k acc with
  | last b hb =>
    have stop : (b ^^^ 0xc5) &&& 0x80 = 0 := by simpa [moreByte] using hb
    unfold readSize
    simp only [List.cons_append, List.nil_append, stop, if_true]
    change some (acc ||| digitByte b <<< (7 * k), rest) = _
    rw [or_group acc _ _ fits]
  | next b tail n hb value ih =>
    have go : (b ^^^ 0xc5) &&& 0x80 ≠ 0 := by simpa [moreByte] using hb
    unfold readSize
    simp only [List.cons_append, go, if_false]
    change readSize (tail ++ rest) (7 * k + 7) (acc ||| digitByte b <<< (7 * k)) = _
    have power : 2 ^ (7 * (k + 1)) = 128 * 2 ^ (7 * k) := by
      rw [Nat.mul_add, Nat.pow_add, Nat.mul_comm]
    rw [or_group acc _ _ fits, show 7 * k + 7 = 7 * (k + 1) from rfl,
      ih _ _ (group_lt acc _ k fits (digitByte_lt b)), power]
    congr 2
    rw [Nat.add_mul, Nat.add_assoc, Nat.mul_comm 128 n, Nat.mul_assoc]

/-! ## Frames and files -/

/-- The reader takes exactly one frame off the front of the stream and returns the text
it was made from. -/
theorem decodeBlock_encodeFrame {inflate : Bytes → Option Bytes} {deflater : Deflater}
    {rnd : UInt8} {logs : List String} {header notice : Option String} {frame : EncodedFrame}
    (law : Inflates deflater inflate)
    (h : encodeFrame deflater rnd logs header notice = .ok frame) (rest : Bytes) :
    decodeBlock inflate (frame.bytes ++ rest) =
      some (frameText header notice (logs.take frame.consumed), rest) := by
  obtain ⟨-, -, written, a, finished, stream, payload, pre⟩ := encodeFrame_spec h
  have length : frame.payload.length = a.length := by rw [payload, obfuscate_length]
  have size :=
    readSize_size (encodeSize_size a.length a.length (Nat.le_refl _)) (frame.payload ++ rest)
    0 0 (by decide)
  simp only [Nat.mul_zero, Nat.zero_add, Nat.pow_zero, Nat.mul_one] at size
  have plain : deobfuscate frame.payload (rnd.toNat * a.length % 0x1000) 0 =
      (a, (obfuscate a 0 (xorSeed rnd a.length)).2.toNat) := by
    rw [payload, ← xorSeed_toNat]
    exact deobfuscate_obfuscate a 0 (xorSeed rnd a.length)
  have text : inflate a = some (utf8 (frameText header notice (logs.take frame.consumed))) := by
    rw [law written a finished, stream, utf8_frameText]
  have checksum (sum : UInt32) : UInt8.ofNat sum.toNat = sum.toUInt8 := rfl
  simp only [EncodedFrame.bytes, pre, List.cons_append, List.nil_append, List.append_assoc,
    decodeBlock, size, Option.bind_eq_bind, Option.bind_some]
  rw [if_neg (by simp), if_neg (by simp [length]), ← length, List.take_left, length]
  simp only [plain, checksum, UInt8.xor_assoc, UInt8.xor_self, UInt8.xor_zero, ne_eq,
    not_true_eq_false, if_false, text, Option.bind_some, fromUTF8_utf8]
  rw [← length, List.drop_left]
  rfl

/-- The arguments of one call of `encode_frame`, with what the compressor did in it. -/
structure FrameCall where
  deflater : Deflater
  rnd : UInt8
  logs : List String
  header : Option String
  notice : Option String

def FrameCall.encode (c : FrameCall) : IoResult EncodedFrame :=
  encodeFrame c.deflater c.rnd c.logs c.header c.notice

def FrameCall.text (c : FrameCall) (frame : EncodedFrame) : String :=
  frameText c.header c.notice (c.logs.take frame.consumed)

theorem encodedFrame_ne_nil (frame : EncodedFrame) (c : FrameCall)
    (h : c.encode = .ok frame) : 0 < frame.bytes.length := by
  have ne := frame_code.nonempty _ (encodeFrame_frame h).1
  exact List.length_pos_iff.mpr ne

theorem decodeBlocks_frames {inflate : Bytes → Option Bytes} (calls : List FrameCall)
    (frames : List EncodedFrame) (encoded : calls.map FrameCall.encode = frames.map Except.ok)
    (law : ∀ c ∈ calls, Inflates c.deflater inflate) (fuel : Nat)
    (enough : ((frames.map EncodedFrame.bytes).flatten).length ≤ fuel) :
    decodeBlocks inflate fuel (frames.map EncodedFrame.bytes).flatten =
      some (List.zipWith FrameCall.text calls frames) := by
  induction frames generalizing calls fuel with
  | nil =>
    rw [List.map_nil, List.map_eq_nil_iff] at encoded
    subst encoded
    cases fuel <;> rfl
  | cons frame frames ih =>
    cases calls with
    | nil => cases encoded
    | cons c calls =>
      simp only [List.map_cons, List.cons.injEq] at encoded
      obtain ⟨first, encoded⟩ := encoded
      have block := decodeBlock_encodeFrame (law c List.mem_cons_self) first
        (frames.map EncodedFrame.bytes).flatten
      have some_bytes := encodedFrame_ne_nil frame c first
      simp only [List.map_cons, List.flatten_cons, List.length_append] at enough
      obtain ⟨byte, bytes, cons⟩ := List.exists_cons_of_length_pos some_bytes
      cases fuel with
      | zero => omega
      | succ fuel =>
        have rest := ih calls encoded (fun c hc => law c (List.mem_cons_of_mem _ hc)) fuel (by omega)
        simp only [List.map_cons, List.flatten_cons, cons, List.cons_append] at block ⊢
        simp only [decodeBlocks, block, Option.bind_eq_bind, Option.bind_some, rest,
          List.zipWith_cons_cons]
        rfl

theorem encode_of_mem_zip (calls : List FrameCall) (frames : List EncodedFrame)
    (encoded : calls.map FrameCall.encode = frames.map Except.ok) {c : FrameCall}
    {frame : EncodedFrame} (member : (c, frame) ∈ calls.zip frames) : c.encode = .ok frame := by
  obtain ⟨i, hi, eq⟩ := List.mem_iff_getElem.mp member
  have at_i := congrArg (fun l => l[i]?) encoded
  simp only [List.length_zip] at hi
  simp only [List.getElem_zip, Prod.mk.injEq] at eq
  simp only [List.getElem?_map] at at_i
  rw [List.getElem?_eq_getElem (by omega), List.getElem?_eq_getElem (by omega)] at at_i
  simpa [eq.1, eq.2] using at_i

/-- The bytes of any sequence of `encode_frame` calls, behind the magic, decode to one
text a call, whatever the queues, headers, notices, random bytes and compressors; and no
call consumes more entries than its queue has, nor none of a non-empty one. -/
theorem decode_undoes_encode (inflate : Bytes → Option Bytes) (calls : List FrameCall)
    (frames : List EncodedFrame) (encoded : calls.map FrameCall.encode = frames.map Except.ok)
    (law : ∀ c ∈ calls, Inflates c.deflater inflate) :
    decodeOplogFile inflate (MAGIC ++ (frames.map EncodedFrame.bytes).flatten) =
        some (List.zipWith FrameCall.text calls frames) ∧
      ∀ p ∈ calls.zip frames, p.2.consumed ≤ p.1.logs.length ∧
        (p.1.logs ≠ [] → 0 < p.2.consumed) := by
  constructor
  · unfold decodeOplogFile
    simp only [List.take_left, if_true, List.drop_left]
    exact decodeBlocks_frames calls frames encoded law _ (by simp)
  · intro pair member
    obtain ⟨c, frame⟩ := pair
    obtain ⟨bound, progress, -⟩ := encodeFrame_spec (encode_of_mem_zip calls frames encoded member)
    exact ⟨bound, progress⟩

/-- The first frame of a new file with a header and a notice, and the frame after it. -/
def twoCalls : List FrameCall :=
  [⟨storedDeflater, 7, ["a", "ż"], some "h", some "n"⟩, ⟨storedDeflater, 200, ["b"], none, none⟩]

def twoFrames : List EncodedFrame :=
  [⟨[255, 7, 57, 209],
    [163, 181, 114, 85, 139, 114, 220, 68, 49, 58, 217, 157, 225, 225, 63, 198, 150, 233, 49, 125], 2⟩,
   ⟨[255, 200, 125, 200], [167, 17, 182, 122, 15, 157, 24, 170, 53, 176, 199, 24, 2], 1⟩]

theorem decode_undoes_encode_two_frames :
    decodeOplogFile inflateStored (MAGIC ++ (twoFrames.map EncodedFrame.bytes).flatten) =
      some ["h\nn\na\nż\n", "b\n"] := by
  have law : ∀ c ∈ twoCalls, Inflates c.deflater inflateStored := by
    intro c member
    have stored : c.deflater = storedDeflater := by
      unfold twoCalls at member
      simp only [List.mem_cons, List.not_mem_nil, or_false] at member
      rcases member with rfl | rfl <;> rfl
    exact stored ▸ storedDeflater_inflates
  exact (decode_undoes_encode inflateStored twoCalls twoFrames (by decide +kernel) law).1.trans
    (by decide +kernel)

end OpLog.Guarantees.RoundTrip
