import Mathlib.Algebra.Ring.Int.Defs
import OpLog.Source.TailWalk

/-!
# The tail walk in machine integers

`truncated_frame_start` once more, with its `u64` and `i64` operations checked and with the
place of the reader looked at wherever the outer loop starts over. `none` is an overflow, a
shift by the width or more, a reader that stands elsewhere than at `pos`, a read past the end
or a failing seek; fuel that runs out counts as well.
-/
namespace OpLog.Source

def addU64 (a b : Nat) : Option Nat := if a + b < 2 ^ 64 then some (a + b) else none

def subU64 (a b : Nat) : Option Nat := if b ≤ a then some (a - b) else none

/-- Bits shifted out at the top are lost. -/
def shlU64 (a shift : Nat) : Option Nat :=
  if shift < 64 then some ((a <<< shift) % 2 ^ 64) else none

/-- `as i64`. -/
def asI64 (a : Nat) : Int := if a < 2 ^ 63 then a else (a : Int) - 2 ^ 64

def subI64 (a b : Int) : Option Int :=
  if -(2 ^ 63) ≤ a - b ∧ a - b < 2 ^ 63 then some (a - b) else none

def scanSizeChecked : Bytes → Nat → Nat → Nat → Option SizeScan
  | [], _, _, _ => some .truncated
  | byte :: rest, i, shift, size =>
    let b := byte ^^^ 0xc5
    let i := i + 1
    (shlU64 (b &&& 0x7f).toNat shift).bind fun group =>
      let size := size ||| group
      if b &&& 0x80 = 0 then some (.complete size i)
      else
        let shift := shift + 7
        if shift > 28 then some .oversized else scanSizeChecked rest i shift size

def walkFramesChecked : Nat → Nat → Nat → Reader → Option (Option Nat)
  | 0, _, _, _ => none
  | fuel + 1, len, pos, reader =>
    if reader.offset ≠ pos then none
    else if pos < len then do
      let available := min 8 (← subU64 len pos)
      let (pre, reader) ← (reader.readExact available).toOption
      if pre.head? ≠ some 0xff then return none
      else match ← scanSizeChecked (pre.drop 3) 3 0 0 with
        | .truncated => return some pos
        | .oversized => return none
        | .complete size i =>
          let next ← addU64 (← addU64 pos i) size
          if next > len then return some pos
          else do
            let delta ← subI64 (asI64 next) (asI64 (← addU64 pos available))
            let reader ← (reader.seekRelative delta).toOption
            walkFramesChecked fuel len next reader
    else return none

def truncatedFrameStartChecked (reader : Reader) (len : Nat) : Option (Option Nat) :=
  if len < MAGIC.length then some none
  else do
    let (magic, reader) ← (reader.readExact MAGIC.length).toOption
    if magic ≠ MAGIC then return none
    else walkFramesChecked (len + 1) len MAGIC.length reader

end OpLog.Source
