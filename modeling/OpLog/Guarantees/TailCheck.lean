import OpLog.Format.WalkVerdict
import OpLog.Source.CheckedWalk

/-!
# The tail walker is exact

Its verdict on every byte string is settled in `WalkVerdict`. Here: on a file shorter than
`2 ^ 62` bytes the walk in machine integers comes to the same verdict, the reader being where
it should be in every round; and what the verdict is on the files the worker writes and on
those files cut short.
-/
namespace OpLog.Guarantees.TailCheck
open Library.FrameStream Source Format

/-! ## Machine integers -/

theorem addU64_some {a b : Nat} (fits : a + b < 2 ^ 64) : addU64 a b = some (a + b) := by
  unfold addU64
  rw [if_pos fits]

theorem asI64_small {a : Nat} (fits : a < 2 ^ 63) : asI64 a = a := by
  unfold asI64
  rw [if_pos fits]

/-- No group of a size field reaches beyond the 64 bits. -/
theorem shlU64_group (b : UInt8) {shift : Nat} (room : shift ≤ 28) :
    shlU64 (b &&& 0x7f).toNat shift = some ((b &&& 0x7f).toNat <<< shift) := by
  have low : (b &&& 0x7f).toNat < 128 := by
    rw [UInt8.toNat_and]
    change _ &&& 0x7F < 128
    rw [and_7f]
    exact Nat.mod_lt _ (by decide)
  have fits : (b &&& 0x7f).toNat <<< shift < 2 ^ 64 := by
    rw [Nat.shiftLeft_eq]
    calc (b &&& 0x7f).toNat * 2 ^ shift < 128 * 2 ^ shift :=
          Nat.mul_lt_mul_of_pos_right low (Nat.two_pow_pos shift)
      _ ≤ 128 * 2 ^ 28 := Nat.mul_le_mul_left 128 (Nat.pow_le_pow_right (by decide) room)
      _ < 2 ^ 64 := by decide
  unfold shlU64
  rw [if_pos (by omega), Nat.mod_eq_of_lt fits]

theorem scanSizeChecked_eq (xs : Bytes) (i shift acc : Nat) (room : shift ≤ 28) :
    scanSizeChecked xs i shift acc = some (scanSize xs i shift acc) := by
  induction xs generalizing i shift acc with
  | nil => rfl
  | cons byte xs ih =>
    unfold scanSizeChecked scanSize
    simp only [shlU64_group (byte ^^^ 0xc5) room, Option.bind_some]
    split
    · rfl
    · split
      · rfl
      · rename_i fits
        exact ih _ _ _ (by omega)

/-- A complete size field says less than `2 ^ 35`, so nothing overflows behind it. -/
theorem size_lt {xs : Bytes} {size i : Nat} (h : scanSize (xs.take 5) 3 0 0 = .complete size i) :
    size < 2 ^ 35 ∧ i ≤ 8 := by
  obtain ⟨field, n, more, -, value, short, total, index⟩ :=
    scanSize_found (k := 0) (by decide) (by decide) h
  have bound := value.lt digitByte_lt
  have power := Nat.pow_le_pow_right (show 0 < 128 by decide)
    (show field.length ≤ 5 by omega)
  simp only [Nat.zero_add, Nat.mul_zero, Nat.pow_zero, Nat.mul_one] at total
  rw [total, index]
  exact ⟨Nat.lt_of_lt_of_le bound power, by omega⟩

/-- A round in machine integers, on a file whose offsets they hold. -/
theorem walkFramesChecked_round (fuel pos : Nat) (content : Bytes) (inside : pos < content.length)
    (bound : content.length < 2 ^ 62) :
    walkFramesChecked (fuel + 1) content.length pos ⟨content, pos⟩ =
      if (content.drop pos).head? ≠ some 0xff then some none
      else match scanSize (((content.drop pos).drop 3).take 5) 3 0 0 with
        | .truncated => some (some pos)
        | .oversized => some none
        | .complete size i =>
          if pos + i + size > content.length then some (some pos)
          else walkFramesChecked fuel content.length (pos + i + size) ⟨content, pos + i + size⟩ := by
  have sizes : ((content.drop pos).take 8).drop 3 = ((content.drop pos).drop 3).take 5 :=
    List.drop_take
  have left : subU64 content.length pos = some (content.length - pos) := by
    unfold subU64
    rw [if_pos (Nat.le_of_lt inside)]
  have behind : addU64 pos (min 8 (content.length - pos)) =
      some (pos + min 8 (content.length - pos)) := addU64_some (by omega)
  have here : ¬ (⟨content, pos⟩ : Reader).offset ≠ pos := fun elsewhere => elsewhere rfl
  rw [walkFramesChecked, if_neg here, if_pos inside]
  simp only [Reader.readExact, if_pos (show pos + min 8 (content.length - pos) ≤ content.length by omega),
    bind, Option.bind, pure, left, behind, Except.toOption, window_eq, window_head, sizes,
    scanSizeChecked_eq _ _ _ _ (Nat.zero_le 28)]
  split
  · rfl
  · cases scanned : scanSize (((content.drop pos).drop 3).take 5) 3 0 0 with
    | truncated => rfl
    | oversized => rfl
    | complete size i =>
      obtain ⟨small, index⟩ := size_lt scanned
      have next : addU64 (pos + i) size = some (pos + i + size) := addU64_some (by omega)
      simp only [addU64_some (show pos + i < 2 ^ 64 by omega), next]
      split
      · rfl
      · rename_i within
        have delta : subI64 (asI64 (pos + i + size)) (asI64 (pos + min 8 (content.length - pos))) =
            some (((pos + i + size : Nat) : Int) -
              ((pos + min 8 (content.length - pos) : Nat) : Int)) := by
          rw [asI64_small (by omega), asI64_small (by omega)]
          unfold subI64
          rw [if_pos (by omega)]
        simp only [delta, seek_next]

/-- The walk in machine integers comes to the same verdict. -/
theorem walkFramesChecked_eq (fuel pos : Nat) (content : Bytes) (inside : pos ≤ content.length)
    (bound : content.length < 2 ^ 62) :
    walkFramesChecked fuel content.length pos ⟨content, pos⟩ =
      (walkFrames fuel content.length pos ⟨content, pos⟩).toOption := by
  induction fuel generalizing pos with
  | zero => rfl
  | succ fuel ih =>
    by_cases last : pos = content.length
    · subst last
      rw [walkFrames_end]
      unfold walkFramesChecked
      simp [Except.toOption]
    · rw [walkFramesChecked_round fuel pos content (by omega) bound,
        walkFrames_round fuel pos content (by omega)]
      split
      · rfl
      · cases scanSize (((content.drop pos).drop 3).take 5) 3 0 0 with
        | truncated => rfl
        | oversized => rfl
        | complete size i =>
          dsimp only
          split
          · rfl
          · exact ih _ (by omega)

theorem truncatedFrameStartChecked_eq (content : Bytes) (bound : content.length < 2 ^ 62) :
    truncatedFrameStartChecked ⟨content, 0⟩ content.length =
      (truncatedFrameStart ⟨content, 0⟩ content.length).toOption := by
  unfold truncatedFrameStartChecked truncatedFrameStart
  by_cases short : content.length < MAGIC.length
  · rw [if_pos short, if_pos short]
    rfl
  · rw [if_neg short, if_neg short]
    unfold Reader.readExact
    simp only [Nat.zero_add, if_pos (show MAGIC.length ≤ content.length by omega), bind,
      Option.bind, Except.bind, Except.toOption, pure]
    split
    · rfl
    · exact walkFramesChecked_eq _ _ content (by omega) bound

/-! ## The files the worker writes -/

/-- What `encode_frame` returned, with a payload the size field of the walker has room for. -/
def Encoded (frame : EncodedFrame) : Prop :=
  frame.payload.length < 2 ^ 35 ∧
    ∃ deflater rnd logs header notice, encodeFrame deflater rnd logs header notice = .ok frame

def fileOf (frames : List EncodedFrame) : Bytes := MAGIC ++ (frames.map (·.bytes)).flatten

theorem possible_of_encoded {frame : EncodedFrame} (encoded : Encoded frame) :
    PossibleFrame frame.bytes := by
  obtain ⟨bound, deflater, rnd, logs, header, notice, h⟩ := encoded
  exact (encodeFrame_frame h).2 bound

theorem complete_of_encoded {frames : List EncodedFrame} (encoded : ∀ f ∈ frames, Encoded f) :
    Complete PossibleFrame (frames.map (·.bytes)) := by
  intro bytes member
  obtain ⟨frame, listed, rfl⟩ := List.mem_map.mp member
  exact possible_of_encoded (encoded frame listed)

theorem fileOf_whole {frames : List EncodedFrame} (encoded : ∀ f ∈ frames, Encoded f) :
    truncatedFrameStart ⟨fileOf frames, 0⟩ (fileOf frames).length = .ok none := by
  have exact_ := truncatedFrameStart_exact (frames.map (·.bytes)) [] (complete_of_encoded encoded)
    (Or.inl rfl)
  rwa [List.append_nil] at exact_

/-- A file cut inside a frame. -/
theorem fileOf_cut {frames more : List EncodedFrame} {frame : EncodedFrame} (n : Nat)
    (encoded : ∀ f ∈ frames, Encoded f) (encoded' : Encoded frame) (some_left : 0 < n)
    (inside : n < frame.bytes.length) :
    let cut := (fileOf (frames ++ frame :: more)).take ((fileOf frames).length + n)
    truncatedFrameStart ⟨cut, 0⟩ cut.length = .ok (some (fileOf frames).length) := by
  intro cut
  have split : cut = MAGIC ++ ((frames.map (·.bytes)).flatten ++ frame.bytes.take n) := by
    have whole : fileOf (frames ++ frame :: more) =
        fileOf frames ++ (frame.bytes ++ (more.map (·.bytes)).flatten) := by
      unfold fileOf
      simp
    simp only [cut, whole, List.take_length_add_append]
    rw [List.take_append_of_le_length (Nat.le_of_lt inside), fileOf, List.append_assoc]
  have torn : Torn PossibleFrame (frame.bytes.take n) :=
    torn_take (possible_of_encoded encoded') some_left inside
  rw [split, truncatedFrameStart_exact _ _ (complete_of_encoded encoded) (Or.inr torn),
    if_neg torn.1]
  rfl

/-- On every byte string shorter than `2 ^ 62` the walk ends, in machine integers and without
an error, with the verdict that the format gives: the start of a torn possible frame behind
the magic and complete possible frames, and nothing otherwise. So it leaves the worker's files
as they are, finds the frame in which one was cut, and finds nothing more behind its cut. -/
theorem tail_walk_is_exact (content : Bytes) (bound : content.length < 2 ^ 62) :
    (∃ verdict, truncatedFrameStart ⟨content, 0⟩ content.length = .ok verdict ∧
      truncatedFrameStartChecked ⟨content, 0⟩ content.length = some verdict ∧
      ∀ p, verdict = some p ↔ ∃ fs t, content = MAGIC ++ (fs.flatten ++ t) ∧
        Complete PossibleFrame fs ∧ Torn PossibleFrame t ∧ p = (MAGIC ++ fs.flatten).length) ∧
    (∀ p, truncatedFrameStart ⟨content, 0⟩ content.length = .ok (some p) →
      truncatedFrameStart ⟨content.take p, 0⟩ (content.take p).length = .ok none) ∧
    ∀ frames : List EncodedFrame, (∀ f ∈ frames, Encoded f) →
      truncatedFrameStart ⟨fileOf frames, 0⟩ (fileOf frames).length = .ok none ∧
      ∀ before frame after, frames = before ++ frame :: after →
        ∀ n, 0 < n → n < frame.bytes.length →
          let cut := (fileOf frames).take ((fileOf before).length + n)
          truncatedFrameStart ⟨cut, 0⟩ cut.length = .ok (some (fileOf before).length) := by
  refine ⟨?_, fun p => cut_twice, fun frames encoded => ⟨fileOf_whole encoded, ?_⟩⟩
  · obtain ⟨verdict, total⟩ := truncatedFrameStart_total content
    refine ⟨verdict, total, ?_, fun p => ?_⟩
    · rw [truncatedFrameStartChecked_eq content bound, total]
      rfl
    · rw [← truncatedFrameStart_iff, total, Except.ok.injEq]
  · intro before frame after split n some_left inside
    subst split
    exact fileOf_cut n (fun f member => encoded f (by simp [member])) (encoded frame (by simp))
      some_left inside

/-- A marker alone behind the magic. -/
theorem tail_walk_is_exact_marker :
    truncatedFrameStartChecked ⟨MAGIC ++ [0xff], 0⟩ (MAGIC ++ [0xff]).length = some (some 10) := by
  obtain ⟨verdict, -, checked, exact_⟩ := (tail_walk_is_exact (MAGIC ++ [0xff]) (by decide)).1
  rw [checked, (exact_ 10).mpr]
  exact ⟨[], [0xff], rfl, complete_nil _,
    ⟨by simp, [0, 0, 0xc5], by simp, 0, 0, [0xc5], [], rfl, by decide, .last 0xc5 rfl⟩, rfl⟩

end OpLog.Guarantees.TailCheck
