import OpLog.Guarantees.RoundTrip
import OpLog.Source.CheckedStream

/-!
# The keystream is exact

`encode_frame` computes its keystream and its checksum in 32 bits, the seed with a narrowing
cast and a wrapping product. A reader that computes in unbounded integers, and masks nothing
before the last step, arrives at the same bytes.
-/
namespace OpLog.Guarantees.Keystream
open Source RoundTrip

/-- The keystream state of such a reader behind `k` rounds: no mask, no wrap. -/
def readerState (seed : Nat) : Nat → Nat
  | 0 => seed
  | k + 1 => readerState seed k * 2903 + 71

/-- The keystream bytes of the first `count` rounds. -/
def readerKeys (seed count : Nat) : Bytes :=
  (List.range count).map fun k => UInt8.ofNat (readerState seed (k + 1) % 256)

/-- Its checksum of a payload. -/
def readerSum (payload : Bytes) : Nat := (payload.map UInt8.toNat).sum % 256

theorem readerState_succ (seed k : Nat) :
    readerState seed (k + 1) = readerState (seed * 2903 + 71) k := by
  induction k with
  | zero => rfl
  | succ k ih =>
    unfold readerState
    rw [ih]

theorem readerKeys_succ (seed count : Nat) :
    readerKeys seed (count + 1) =
      UInt8.ofNat ((seed * 2903 + 71) % 256) :: readerKeys (seed * 2903 + 71) count := by
  unfold readerKeys
  have later : List.map ((fun k => UInt8.ofNat (readerState seed (k + 1) % 256)) ∘ Nat.succ)
        (List.range count) =
      (List.range count).map fun k =>
        UInt8.ofNat (readerState (seed * 2903 + 71) (k + 1) % 256) := by
    apply List.map_congr_left
    intro k _
    rw [Function.comp_apply, readerState_succ]
  rw [List.range_succ_eq_map, List.map_cons, List.map_map, later, readerState_succ, readerState]

/-- The low twelve bits of the state decide the keystream. -/
theorem readerState_mod {seed seed' : Nat} (same : seed % 4096 = seed' % 4096) (k : Nat) :
    readerState seed k % 4096 = readerState seed' k % 4096 := by
  induction k with
  | zero => exact same
  | succ k ih =>
    simp only [readerState]
    omega

theorem readerKeys_mod {seed seed' : Nat} (same : seed % 4096 = seed' % 4096) (count : Nat) :
    readerKeys seed count = readerKeys seed' count := by
  unfold readerKeys
  apply List.map_congr_left
  intro k _
  have low := readerState_mod same (k + 1)
  have agree : readerState seed (k + 1) % 256 = readerState seed' (k + 1) % 256 := by omega
  rw [agree]

/-- The loop puts the reader's keystream over the payload, from any state of its own. -/
theorem obfuscate_keys (a : Bytes) (sum xor : UInt32) :
    (obfuscate a sum xor).1 =
      List.zipWith (fun byte key => byte ^^^ key) a (readerKeys xor.toNat a.length) := by
  induction a generalizing sum xor with
  | nil => rfl
  | cons byte rest ih =>
    have key : (((xor * 2903 + 71) &&& 0xfff) &&& 0xff).toUInt8 =
        UInt8.ofNat ((xor.toNat * 2903 + 71) % 256) := by
      rw [keybyte, keystream_toNat, Nat.mod_mod_of_dvd _ (by decide)]
    have tail : readerKeys ((xor * 2903 + 71) &&& 0xfff).toNat rest.length =
        readerKeys (xor.toNat * 2903 + 71) rest.length := by
      apply readerKeys_mod
      rw [keystream_toNat, Nat.mod_mod]
    simp only [obfuscate, List.length_cons, readerKeys_succ, List.zipWith_cons_cons, key, ih, tail]

theorem obfuscate_sum (a : Bytes) (sum xor : UInt32) :
    (obfuscate a sum xor).2.toNat % 256 = (sum.toNat + (a.map UInt8.toNat).sum) % 256 := by
  induction a generalizing sum xor with
  | nil => rfl
  | cons byte rest ih =>
    simp only [obfuscate, ih, checksum_toNat, List.map_cons, List.sum_cons]
    omega

/-- The checksum stays under its mask. -/
theorem obfuscate_sum_lt (a : Bytes) {sum : UInt32} (low : sum.toNat < 256) (xor : UInt32) :
    (obfuscate a sum xor).2.toNat < 256 := by
  induction a generalizing sum xor with
  | nil => exact low
  | cons byte rest ih =>
    apply ih
    rw [checksum_toNat]
    omega

theorem zipWith_xor_twice (a keys : Bytes) (enough : a.length ≤ keys.length) :
    List.zipWith (fun byte key => byte ^^^ key)
      (List.zipWith (fun byte key => byte ^^^ key) a keys) keys = a := by
  induction a generalizing keys with
  | nil => rfl
  | cons byte rest ih =>
    cases keys with
    | nil => simp at enough
    | cons key keys =>
      simp only [List.length_cons, Nat.add_le_add_iff_right] at enough
      simp only [List.zipWith_cons_cons, UInt8.xor_assoc, UInt8.xor_self, UInt8.xor_zero, ih _ enough]

theorem readerKeys_length (seed count : Nat) : (readerKeys seed count).length = count := by
  simp [readerKeys]

/-- The stream does not depend on the checksum, and a second pass undoes the first. -/
theorem obfuscate_twice (a : Bytes) (sum sum' xor : UInt32) :
    (obfuscate (obfuscate a sum xor).1 sum' xor).1 = a := by
  rw [obfuscate_keys, obfuscate_length, obfuscate_keys]
  apply zipWith_xor_twice
  rw [readerKeys_length]

/-- For any random byte and payload: no operation of the loop overflows, the seed is the
full product's low bits, the keystream and the checksum are the unbounded reader's, the
reference reader gets the payload and the checksum back, and so does the stream itself. -/
theorem keystream_exact (rnd : UInt8) (payload : Bytes) :
    obfuscateChecked payload 0 (xorSeed rnd payload.length) =
      some (obfuscate payload 0 (xorSeed rnd payload.length)) ∧
    (xorSeed rnd payload.length).toNat = rnd.toNat * payload.length % 4096 ∧
    (obfuscate payload 0 (xorSeed rnd payload.length)).1 =
      List.zipWith (fun byte key => byte ^^^ key) payload
        (readerKeys (rnd.toNat * payload.length) payload.length) ∧
    (obfuscate payload 0 (xorSeed rnd payload.length)).2.toNat = readerSum payload ∧
    deobfuscate (obfuscate payload 0 (xorSeed rnd payload.length)).1
      (rnd.toNat * payload.length % 4096) 0 = (payload, readerSum payload) ∧
    (obfuscate (obfuscate payload 0 (xorSeed rnd payload.length)).1 0
      (xorSeed rnd payload.length)).1 = payload := by
  have seed := xorSeed_toNat rnd payload.length
  have sum : (obfuscate payload 0 (xorSeed rnd payload.length)).2.toNat = readerSum payload := by
    have low := @obfuscate_sum_lt payload 0 (by decide) (xorSeed rnd payload.length)
    have total := obfuscate_sum payload 0 (xorSeed rnd payload.length)
    rw [Nat.mod_eq_of_lt low] at total
    simpa [readerSum] using total
  constructor
  · exact obfuscateChecked_masked payload (masked_seed rnd payload.length)
  constructor
  · exact seed
  constructor
  · have keys : readerKeys (xorSeed rnd payload.length).toNat payload.length =
        readerKeys (rnd.toNat * payload.length) payload.length := by
      apply readerKeys_mod
      rw [seed, Nat.mod_mod]
    rw [obfuscate_keys, keys]
  constructor
  · exact sum
  constructor
  · rw [← seed, ← sum]
    exact deobfuscate_obfuscate payload 0 (xorSeed rnd payload.length)
  · exact obfuscate_twice payload 0 0 _

end OpLog.Guarantees.Keystream
