import Mathlib.Algebra.Ring.Nat
import OpLog.Source.EncodeFrame

/-!
# The obfuscation loop with overflow checks

`obfuscate` once more, with the `u32` operations that the source leaves to the build's
overflow checks. `none` is an overflow, a panic in a debug build. The seed's product is
`wrapping_mul` in the source and stays as it is.
-/
namespace OpLog.Source

def addU32 (a b : UInt32) : Option UInt32 :=
  if a.toNat + b.toNat < 2 ^ 32 then some (a + b) else none

def mulU32 (a b : UInt32) : Option UInt32 :=
  if a.toNat * b.toNat < 2 ^ 32 then some (a * b) else none

def obfuscateChecked : Bytes → UInt32 → UInt32 → Option (Bytes × UInt32)
  | [], sum, _ => some ([], sum)
  | byte :: rest, sum, xor => do
    let sum ← addU32 sum byte.toUInt32
    let sum := sum &&& 0xff
    let xor ← mulU32 xor 2903
    let xor ← addU32 xor 71
    let xor := xor &&& 0xfff
    let (out, final) ← obfuscateChecked rest sum xor
    return ((byte ^^^ (xor &&& 0xff).toUInt8) :: out, final)

theorem toNat_and_low (x : UInt32) : (x &&& 0xff).toNat = x.toNat % 256 := by
  rw [UInt32.toNat_and]
  change _ &&& 2 ^ 8 - 1 = _
  rw [Nat.and_two_pow_sub_one_eq_mod]

theorem toNat_and_seed (x : UInt32) : (x &&& 0xfff).toNat = x.toNat % 4096 := by
  rw [UInt32.toNat_and]
  change _ &&& 2 ^ 12 - 1 = _
  rw [Nat.and_two_pow_sub_one_eq_mod]

/-- What the masks leave at the head of the loop: a byte and twelve bits. -/
def Masked (sum xor : UInt32) : Prop := sum.toNat < 256 ∧ xor.toNat < 4096

theorem masked_seed (rnd : UInt8) (size : Nat) : Masked 0 (xorSeed rnd size) := by
  constructor
  · decide
  · unfold xorSeed
    rw [toNat_and_seed]
    omega

/-- Under the masks no operation of one round overflows, and the round ends under them. -/
theorem round_checked {sum xor : UInt32} (masked : Masked sum xor) (byte : UInt8) :
    addU32 sum byte.toUInt32 = some (sum + byte.toUInt32) ∧
    mulU32 xor 2903 = some (xor * 2903) ∧
    addU32 (xor * 2903) 71 = some (xor * 2903 + 71) ∧
    Masked ((sum + byte.toUInt32) &&& 0xff) ((xor * 2903 + 71) &&& 0xfff) := by
  obtain ⟨low, seed⟩ := masked
  have small : byte.toUInt32.toNat < 256 := by
    rw [UInt8.toNat_toUInt32]
    exact byte.toNat_lt
  have factor : (2903 : UInt32).toNat = 2903 := rfl
  have offset : (71 : UInt32).toNat = 71 := rfl
  have product : (xor * 2903).toNat = xor.toNat * 2903 := by
    rw [UInt32.toNat_mul, factor]
    omega
  constructor
  · exact if_pos (by omega)
  constructor
  · apply if_pos
    rw [factor]
    omega
  constructor
  · apply if_pos
    rw [product, offset]
    omega
  constructor
  · rw [toNat_and_low]
    omega
  · rw [toNat_and_seed]
    omega

theorem obfuscateChecked_masked (a : Bytes) {sum xor : UInt32} (masked : Masked sum xor) :
    obfuscateChecked a sum xor = some (obfuscate a sum xor) := by
  induction a generalizing sum xor with
  | nil => rfl
  | cons byte rest ih =>
    obtain ⟨added, multiplied, shifted, next⟩ := round_checked masked byte
    simp only [obfuscateChecked, obfuscate, added, multiplied, shifted, Option.bind_eq_bind,
      Option.bind_some, ih next, Option.pure_def]

end OpLog.Source
