import OpLog.Format.LateAttempt
import OpLog.Guarantees.Preservation

/-!
# The frame of an attempt that others write into

An attempt that succeeds on a log file while bytes of others land at its end, by themselves or
from a write that timed out: when the file is a log file afterwards, with the frame at its end.
-/
namespace OpLog.Guarantees.LateFrames
open Library.FrameStream Format Source

/-- An attempt that succeeds on a log file leaves a log file that ends with its frame exactly if
what landed makes up complete frames: what is left of it ahead of the prefix, and what stands
between the prefix and the payload with it. -/
theorem frame_in_place_iff {f f' : LogFile} {flushInterval : Duration} {notice : Option String}
    {env : AttemptEnv} {others : Others} {content : Bytes} {fs : List Bytes} {tail : Bytes}
    {written : Written} (stores : Stores (some content) fs tail)
    (seen : env.io.sees (some content) = true)
    (fits : written.frame.payload.length < 2 ^ 35)
    (succeeds : (f.writeToFileAmong flushInterval notice env others (some content)).result =
      .ok (f', some written)) :
    (∃ gs, Stores (applyOps (f.writeToFileAmong flushInterval notice env others (some content)).ops
        (some content)) (gs ++ [written.frame.bytes]) []) ↔
      ∃ hs, Complete PossibleFrame hs ∧
        landedAhead f others content tail ++ (written.frame.framePrefix ++ others.within) =
          hs.flatten ++ written.frame.framePrefix := by
  rcases ends_attempt ⟨succeeds, rfl⟩ with ⟨none, -, -⟩ | ⟨frame, -, encoded, same, placed⟩
  · cases none
  · cases same
    have possible := (encodeFrame_frame encoded).2 fits
    rcases placed with ⟨unseen, -⟩ | ⟨found, same, -, after⟩
    · rw [seen] at unseen
      cases unseen
    · cases same
      rw [after]
      cases stores with
      | empty =>
        rw [sees_eq_false env.io (Or.inr rfl)] at seen
        cases seen
      | frames fs tail complete ended =>
        rw [aheadAmong_log complete ended, List.append_assoc, List.append_assoc]
        generalize landedAhead f others (MAGIC ++ (fs.flatten ++ tail)) tail = landed
        have pieces : landed ++ (frame.framePrefix ++ (others.within ++ frame.payload)) =
            landed ++ (frame.framePrefix ++ others.within) ++ frame.payload := by
          simp only [List.append_assoc]
        rw [pieces]
        constructor
        · intro ends_with
          obtain ⟨gs, stores⟩ := ends_with
          obtain ⟨whole, same⟩ := stores_whole.mp stores
          have some_bytes : landed ++ (frame.framePrefix ++ others.within) ++ frame.payload ≠ [] := by
            intro none
            apply possible_code.nonempty _ possible
            simp only [List.append_eq_nil_iff] at none
            simp [EncodedFrame.bytes, none]
          obtain ⟨hs, -, more, rest⟩ :=
            frames_ahead_of_last possible_code complete whole same some_bytes
          refine ⟨hs, more, List.append_cancel_right (rest.trans ?_)⟩
          simp [EncodedFrame.bytes]
        · intro complete_too
          obtain ⟨hs, more, there⟩ := complete_too
          refine ⟨fs ++ hs, stores_whole.mpr ⟨?_, ?_⟩⟩
          · exact complete_snoc (complete_append.mpr ⟨complete, more⟩) possible
          · rw [there]
            simp [EncodedFrame.bytes]

/-- A file with a torn frame only: what lands behind the second length check goes with the cut. -/
theorem frame_in_place_iff_cut :
    let write := (Preservation.queuedFile "" ["entry"]).writeToFileAmong 0 none (storedEnv allDone)
      ⟨[], [7, 7], [], []⟩ (some (MAGIC ++ ([].flatten ++ [0xff])))
    ∃ f' written, write.result = .ok (f', some written) ∧
      ∃ gs, Stores (applyOps write.ops (some (MAGIC ++ ([].flatten ++ [0xff]))))
        (gs ++ [written.frame.bytes]) [] := by
  intro write
  have evaluated : (write.result.toOption.bind (·.2)).any
      (fun w => decide (w.frame.payload.length < 2 ^ 35)) = true := by decide +kernel
  have torn : Torn PossibleFrame [0xff] := torn_of_continuing rfl (by simp) (by simp)
  cases result : write.result with
  | error e => simp [result, Except.toOption] at evaluated
  | ok ended =>
    obtain ⟨f', written⟩ := ended
    cases written with
    | none => simp [result, Except.toOption] at evaluated
    | some written =>
      have fits : written.frame.payload.length < 2 ^ 35 := by
        simpa [result, Except.toOption] using evaluated
      refine ⟨f', written, rfl, (frame_in_place_iff (.frames [] [0xff] (complete_nil _) (Or.inr torn))
        (by decide) fits result).mpr ⟨[], complete_nil _, ?_⟩⟩
      rw [show landedAhead _ _ _ _ = [] from by decide]
      simp

end OpLog.Guarantees.LateFrames
