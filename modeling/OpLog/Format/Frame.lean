import OpLog.Library.FrameStream
import OpLog.Library.GroupCode
import OpLog.Source.EncodeFrame

/-!
# The frames of a log file

README, "File format": `[0xFF] [rnd] [checksum] [size (VLQ, XOR 0xC5)] [zlib+XOR data]`.
This is the format as a set of byte strings, stated without reference to the code that
writes it or walks it. `Frame` has a size of any length, as a reader accepts it;
`PossibleFrame` is what the tail walker recognises, a size of at most five bytes.
-/
namespace OpLog.Format
open Library.FrameStream Library.GroupCode Source

/-- The byte announces another size byte. -/
def moreByte (b : UInt8) : Bool := (b ^^^ 0xc5) &&& 0x80 != 0

/-- The seven bits of a size byte. -/
def digitByte (b : UInt8) : Nat := ((b ^^^ 0xc5) &&& 0x7f).toNat

/-- The bytes are a complete size field of this value. -/
abbrev Size : Bytes → Nat → Prop := Quantity moreByte digitByte 128

/-- Marker, random byte, checksum, a size field whose length `groups` admits, and as
many payload bytes as the size says. -/
def FrameOf (groups : Nat → Prop) (f : Bytes) : Prop :=
  ∃ rnd sum size payload, f = 0xff :: rnd :: sum :: (size ++ payload) ∧
    groups size.length ∧ Size size payload.length

def Frame : Bytes → Prop := FrameOf fun _ => True

def PossibleFrame : Bytes → Prop := FrameOf fun n => n ≤ 5

theorem frame_of_possible (f : Bytes) (h : PossibleFrame f) : Frame f := by
  obtain ⟨rnd, sum, size, payload, eq, -, value⟩ := h
  exact ⟨rnd, sum, size, payload, eq, trivial, value⟩

/-- Frames delimit themselves: the size field says where each one ends. -/
theorem frame_code : PrefixCode Frame where
  nonempty := by
    intro x frame
    obtain ⟨rnd, sum, size, payload, rfl, -⟩ := frame
    simp
  unique := by
    intro x y s t frame frame' same
    obtain ⟨rnd, sum, size, payload, rfl, -, hx⟩ := frame
    obtain ⟨rnd', sum', size', payload', rfl, -, hy⟩ := frame'
    simp only [List.cons_append, List.cons.injEq, true_and, List.append_assoc] at same
    obtain ⟨rfl, rfl, same⟩ := same
    obtain ⟨rfl, length⟩ := hx.unique hy same
    have payloads := (List.append_inj (List.append_cancel_left same) length).1
    rw [payloads]

theorem possible_code : PrefixCode PossibleFrame := frame_code.mono frame_of_possible

/-! ## Groups of seven bits -/

theorem and_7f (n : Nat) : n &&& 0x7F = n % 128 := Nat.and_two_pow_sub_one_eq_mod n 7

theorem digitByte_lt (b : UInt8) : digitByte b < 128 := by
  unfold digitByte
  rw [UInt8.toNat_and]
  change _ &&& 0x7F < 128
  rw [and_7f]
  exact Nat.mod_lt _ (by decide)

/-- Or-ing a group in above the bits already there adds it. -/
theorem or_group (acc d shift : Nat) (fits : acc < 2 ^ shift) :
    acc ||| d <<< shift = acc + d * 2 ^ shift := by
  rw [Nat.or_comm, ← Nat.shiftLeft_add_eq_or_of_lt fits, Nat.shiftLeft_eq, Nat.add_comm]

/-- One more group keeps the value below one more power. -/
theorem group_lt (acc d k : Nat) (fits : acc < 2 ^ (7 * k)) (low : d < 128) :
    acc + d * 2 ^ (7 * k) < 2 ^ (7 * (k + 1)) := by
  have power : 2 ^ (7 * (k + 1)) = 2 ^ (7 * k) * 128 := by rw [Nat.mul_add, Nat.pow_add]
  have : d * 2 ^ (7 * k) ≤ 127 * 2 ^ (7 * k) := Nat.mul_le_mul_right _ (by omega)
  omega

/-! ## The encoder writes frames -/

theorem last_byte (n : Nat) (h : n < 128) :
    moreByte (UInt8.ofNat n ^^^ 0xc5) = false ∧ digitByte (UInt8.ofNat n ^^^ 0xc5) = n := by
  have key : ∀ m < 128, moreByte (UInt8.ofNat m ^^^ 0xc5) = false ∧
      digitByte (UInt8.ofNat m ^^^ 0xc5) = m := by decide +kernel
  exact key n h

theorem next_byte (n : Nat) (h : n < 128) :
    moreByte ((UInt8.ofNat n ||| 0x80) ^^^ 0xc5) = true ∧
      digitByte ((UInt8.ofNat n ||| 0x80) ^^^ 0xc5) = n := by
  have key : ∀ m < 128, moreByte ((UInt8.ofNat m ||| 0x80) ^^^ 0xc5) = true ∧
      digitByte ((UInt8.ofNat m ||| 0x80) ^^^ 0xc5) = m := by decide +kernel
  exact key n h

/-- The size loop writes the size it was given. -/
theorem encodeSize_size (fuel n : Nat) (enough : n ≤ fuel) : Size (encodeSize fuel n) n := by
  induction fuel generalizing n with
  | zero =>
    have zero : n = 0 := by omega
    subst zero
    exact .last _ (last_byte 0 (by decide)).1
  | succ fuel ih =>
    have low : n % 128 < 128 := Nat.mod_lt n (by decide)
    have high : n >>> 7 = n / 128 := Nat.shiftRight_eq_div_pow n 7
    unfold encodeSize
    simp only [and_7f, high]
    split
    · obtain ⟨more, digit⟩ := next_byte (n % 128) low
      have tail := ih (n / 128) (by omega)
      have value : Size _ _ := .next _ _ _ more tail
      rw [digit, Nat.mod_add_div] at value
      exact value
    · obtain ⟨last, digit⟩ := last_byte (n % 128) low
      have value : Size _ _ := .last _ last
      have small : n % 128 = n := by omega
      rw [digit, small] at value
      rwa [small]

/-- Seven bits a byte: a size below `128 ^ (k + 1)` takes at most `k + 1` bytes. -/
theorem encodeSize_length (fuel n k : Nat) (h : n < 128 ^ (k + 1)) :
    (encodeSize fuel n).length ≤ k + 1 := by
  induction fuel generalizing n k with
  | zero => simp [encodeSize]
  | succ fuel ih =>
    have high : n >>> 7 = n / 128 := Nat.shiftRight_eq_div_pow n 7
    unfold encodeSize
    simp only [high]
    split
    · cases k with
      | zero => omega
      | succ k =>
        have rest := ih (n / 128) k (by
          rw [Nat.div_lt_iff_lt_mul (by decide)]
          rwa [Nat.pow_succ] at h)
        rw [List.length_cons]
        omega
    · simp

/-- Whatever the compressor returned, `encode_frame` returns a frame; it is one the tail
walker recognises when the payload is shorter than `2 ^ 35` bytes. -/
theorem encodeFrame_frame {deflater : Deflater} {rnd : UInt8} {logs : List String}
    {header notice : Option String} {frame : EncodedFrame}
    (h : encodeFrame deflater rnd logs header notice = .ok frame) :
    Frame frame.bytes ∧ (frame.payload.length < 2 ^ 35 → PossibleFrame frame.bytes) := by
  obtain ⟨-, -, written, a, -, -, payload, pre⟩ := encodeFrame_spec h
  have length : frame.payload.length = a.length := by rw [payload, obfuscate_length]
  have size := encodeSize_size a.length a.length (Nat.le_refl _)
  have bytes : frame.bytes = 0xff :: rnd ::
      ((obfuscate a 0 (xorSeed rnd a.length)).2.toUInt8 ^^^ 0x5c) ::
        (encodeSize a.length a.length ++ frame.payload) := by
    simp [EncodedFrame.bytes, pre]
  refine ⟨⟨_, _, _, _, bytes, trivial, length ▸ size⟩, ?_⟩
  intro bound
  rw [length] at bound
  exact ⟨_, _, _, _, bytes, encodeSize_length _ _ 4 (by simpa using bound), length ▸ size⟩

/-- The other way round: a frame the walker recognises has a payload below that bound. -/
theorem encodeFrame_payload_lt {deflater : Deflater} {rnd : UInt8} {logs : List String}
    {header notice : Option String} {frame : EncodedFrame}
    (h : encodeFrame deflater rnd logs header notice = .ok frame)
    (possible : PossibleFrame frame.bytes) : frame.payload.length < 2 ^ 35 := by
  obtain ⟨-, -, written, a, -, -, payload, pre⟩ := encodeFrame_spec h
  have length : frame.payload.length = a.length := by rw [payload, obfuscate_length]
  obtain ⟨rnd', sum', size', payload', eq, short, value⟩ := possible
  simp only [EncodedFrame.bytes, pre, List.cons_append, List.nil_append, List.cons.injEq,
    true_and] at eq
  obtain ⟨rfl, same⟩ := value.unique (encodeSize_size a.length a.length (Nat.le_refl _)) eq.2.2.symm
  have bound := value.lt digitByte_lt
  have power := Nat.pow_le_pow_right (show 0 < 128 by decide) short
  rw [length, ← same]
  exact Nat.lt_of_lt_of_le bound power

end OpLog.Format
