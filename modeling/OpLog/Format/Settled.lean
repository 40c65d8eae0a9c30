import OpLog.Format.Attempt
import OpLog.Format.WalkVerdict

/-!
# Contents behind which a frame is safe

A content is settled if the tail check cuts nothing off it. A frame behind a settled content is
never cut into afterwards, whatever is appended behind it: the walker would have to read the
end of the content, or the frame itself, as the start of a torn frame. Any content is settled
by a tail check all of whose calls succeed.
-/
namespace OpLog.Format
open Library.FrameStream Source

/-- The walker finds nothing to cut, or is not asked. -/
def Settled (content : Bytes) : Prop :=
  TAIL_CHECK_MAX_LEN < content.length ∨
    truncatedFrameStart ⟨content, 0⟩ content.length = .ok none

/-- No frame starts inside the magic. -/
theorem magic_before_frame {content f more rest : Bytes} (frame : Frame f)
    (same : content ++ (f ++ more) = MAGIC ++ rest) : ∃ body, content = MAGIC ++ body := by
  rcases List.append_eq_append_iff.mp same with ⟨inside, magic, behind⟩ | ⟨body, split, -⟩
  · cases inside with
    | nil => exact ⟨[], by rw [magic, List.append_nil, List.append_nil]⟩
    | cons b inside =>
      obtain ⟨rnd, sum, size, payload, rfl, -⟩ := frame
      have marker : 0xff = b := (List.cons.inj behind).1
      have member : (0xff : UInt8) ∈ MAGIC := by
        rw [magic, marker]
        simp
      exact absurd member (by decide)
  · exact ⟨body, split⟩

/-- A cut behind a settled content and a frame is a cut behind both. -/
theorem cut_behind_frame {content f : Bytes} (settled : Settled content) (frame : Frame f)
    (more : Bytes) {p : Nat} (short : (content ++ (f ++ more)).length ≤ TAIL_CHECK_MAX_LEN)
    (cut : truncatedFrameStart ⟨content ++ (f ++ more), 0⟩ (content ++ (f ++ more)).length =
      .ok (some p)) :
    (content ++ f).length ≤ p := by
  have whole : truncatedFrameStart ⟨content, 0⟩ content.length = .ok none := by
    rcases settled with long | whole
    · rw [List.length_append] at short
      omega
    · exact whole
  obtain ⟨fs, t, same, complete, torn, rfl⟩ := (truncatedFrameStart_iff _ p).mp cut
  obtain ⟨body, rfl⟩ := magic_before_frame frame same
  rw [List.append_assoc, List.append_cancel_left_eq] at same
  rcases split_stream complete (Or.inr torn) same with
    ⟨gs, u, rfl, complete', torn'⟩ | ⟨gs, hs, rfl, rfl, after⟩
  · -- then the content itself ended inside a frame
    have cut' := (truncatedFrameStart_iff (MAGIC ++ (gs.flatten ++ u)) _).mpr
      ⟨gs, u, rfl, complete', torn', rfl⟩
    rw [whole] at cut'
    cases cut'
  · have torn_frame : Torn Frame t := by
      obtain ⟨ne, s, hs, possible⟩ := torn
      exact ⟨ne, s, hs, frame_of_possible _ possible⟩
    cases hs with
    | nil => exact absurd after.symm (torn_no_frame frame_code frame torn_frame)
    | cons g hs =>
      have possible : PossibleFrame g := complete g (by simp)
      rw [List.flatten_cons, List.append_assoc] at after
      obtain rfl := frame_code.unique f g _ _ frame (frame_of_possible g possible) after
      simp only [List.flatten_append, List.flatten_cons, List.length_append]
      omega

theorem settled_frame {content f : Bytes} (settled : Settled content) (frame : Frame f) :
    Settled (content ++ f) := by
  by_cases long : TAIL_CHECK_MAX_LEN < (content ++ f).length
  · exact Or.inl long
  · obtain ⟨verdict, found⟩ := truncatedFrameStart_total (content ++ f)
    cases verdict with
    | none => exact Or.inr found
    | some p =>
      have behind := cut_behind_frame settled frame [] (p := p)
      rw [List.append_nil] at behind
      have past := behind (Nat.le_of_not_lt long) found
      obtain ⟨fs, t, same, -, torn, rfl⟩ := (truncatedFrameStart_iff _ p).mp found
      have total := congrArg List.length same
      have some_left := List.length_pos_iff.mpr torn.1
      simp only [List.length_append] at total past
      omega

theorem settled_magic : Settled MAGIC := by
  have whole := truncatedFrameStart_exact [] [] (complete_nil _) (Or.inl rfl)
  exact Or.inr whole

/-- The repair cuts where the walker says, or does nothing. -/
theorem tailOps_cases (f : LogFile) (content : Bytes) :
    f.tailOps content = [] ∧ (f.tailVerified = false → Settled content) ∨
    ∃ p, content.length ≤ TAIL_CHECK_MAX_LEN ∧
      truncatedFrameStart ⟨content, 0⟩ content.length = .ok (some p) ∧
      f.tailOps content = [.setLen p] := by
  unfold LogFile.tailOps
  cases verified : f.tailVerified with
  | true => exact Or.inl ⟨by simp, by simp⟩
  | false =>
    by_cases long : content.length > TAIL_CHECK_MAX_LEN
    · exact Or.inl ⟨by simp [long], fun _ => Or.inl long⟩
    · obtain ⟨verdict, found⟩ := truncatedFrameStart_total content
      simp only [Bool.false_or, long, decide_false, Bool.false_eq_true, if_false, found]
      cases verdict with
      | none => exact Or.inl ⟨rfl, fun _ => Or.inr found⟩
      | some p => exact Or.inr ⟨p, Nat.le_of_not_lt long, rfl, rfl⟩

/-- What a repair leaves is settled; so is what needs none. -/
theorem settled_repaired (f : LogFile) (content : Bytes)
    (verified : f.tailVerified = true → Settled content) :
    ∃ repaired, applyOps (f.tailOps content) (some content) = some repaired ∧ Settled repaired := by
  rcases tailOps_cases f content with ⟨none, settled⟩ | ⟨p, short, cut, found⟩
  · rw [none]
    refine ⟨content, rfl, ?_⟩
    cases flag : f.tailVerified with
    | true => exact verified flag
    | false => exact settled flag
  · rw [found]
    exact ⟨content.take p, rfl, Or.inr (cut_twice cut)⟩

/-! ## Frames that stay where they are -/

/-- The frames stand in the content one behind another, whatever stands between them. -/
inductive Holds : List Bytes → Bytes → Prop where
  | none (content : Bytes) : Holds [] content
  | frame {frames : List Bytes} {rest : Bytes} (before f : Bytes) (later : Holds frames rest) :
      Holds (f :: frames) (before ++ (f ++ rest))

theorem Holds.append {frames : List Bytes} {content : Bytes} (holds : Holds frames content)
    (more : Bytes) : Holds frames (content ++ more) := by
  induction holds with
  | none content => exact .none _
  | frame before f later ih =>
    rw [List.append_assoc, List.append_assoc]
    exact .frame before f ih

theorem Holds.snoc {frames : List Bytes} {content : Bytes} (holds : Holds frames content)
    (f : Bytes) : Holds (frames ++ [f]) (content ++ f) := by
  induction holds with
  | none content =>
    have last : Holds [f] (content ++ (f ++ [])) := .frame content f (.none [])
    rwa [List.append_nil] at last
  | frame before g later ih =>
    rw [List.append_assoc, List.append_assoc]
    exact .frame before g ih

/-- No tail check cuts into the content, whatever is appended to it. -/
def Solid (content : Bytes) : Prop :=
  ∀ more p, (content ++ more).length ≤ TAIL_CHECK_MAX_LEN →
    truncatedFrameStart ⟨content ++ more, 0⟩ (content ++ more).length = .ok (some p) →
      content.length ≤ p

theorem solid_frame {content f : Bytes} (settled : Settled content) (frame : Frame f) :
    Solid (content ++ f) := by
  intro more p short cut
  rw [List.append_assoc] at short cut
  exact cut_behind_frame settled frame more short cut

/-- The frames stand in a part of the file that no tail check cuts into. -/
inductive Kept : List Bytes → Option Bytes → Prop where
  | none (content : Option Bytes) : Kept [] content
  | frames {frames : List Bytes} {solid : Bytes} (holds : Holds frames solid) (fast : Solid solid)
      (some_bytes : solid ≠ []) (junk : Bytes) : Kept frames (some (solid ++ junk))

theorem Kept.holds {frames : List Bytes} {content : Option Bytes} (kept : Kept frames content) :
    Holds frames (content.getD []) := by
  cases kept with
  | none => exact .none _
  | frames holds fast some_bytes junk => exact holds.append junk

/-- A file that keeps a frame has content. -/
theorem Kept.content {frames : List Bytes} {content : Option Bytes} (kept : Kept frames content)
    (some_frame : frames ≠ []) : ∃ c, content = some c ∧ c ≠ [] := by
  cases kept with
  | none => exact absurd rfl some_frame
  | frames holds fast some_bytes junk =>
    exact ⟨_, rfl, fun none => some_bytes (List.append_eq_nil_iff.mp none).1⟩

theorem Kept.append {frames : List Bytes} {content : Bytes} (kept : Kept frames (some content))
    (more : Bytes) : Kept frames (some (content ++ more)) := by
  generalize same : some content = stored at kept
  cases kept with
  | none => exact .none _
  | frames holds fast some_bytes junk =>
    cases same
    rw [List.append_assoc]
    exact .frames holds fast some_bytes _

theorem Kept.repaired {frames : List Bytes} {content : Bytes} (kept : Kept frames (some content))
    (f : LogFile) : Kept frames (applyOps (f.tailOps content) (some content)) := by
  rcases tailOps_cases f content with ⟨none, -⟩ | ⟨p, short, cut, found⟩
  · rw [none]
    exact kept
  · rw [found]
    generalize same : some content = stored at kept
    cases kept with
    | none => exact .none _
    | frames holds fast some_bytes junk =>
      cases same
      have behind := fast junk p short cut
      rw [applyOps_cons, applyOps_nil, DiskOp.apply, Option.map_some,
        ← Nat.add_sub_cancel' behind, List.take_length_add_append]
      exact .frames holds fast some_bytes _

/-- A frame behind a settled content is kept with those before it. -/
theorem Kept.frame {frames : List Bytes} {content f : Bytes} (kept : Kept frames (some content))
    (settled : Settled content) (frame : Frame f) :
    Kept (frames ++ [f]) (some (content ++ f)) := by
  have last : Kept (frames ++ [f]) (some (content ++ f ++ [])) := by
    refine .frames (kept.holds.snoc f) (solid_frame settled frame) ?_ []
    exact fun none => frame_code.nonempty f frame (List.append_eq_nil_iff.mp none).2
  rwa [List.append_nil] at last

/-! ## Attempts -/

/-- Opening a file that is seen keeps its frames and leaves it settled. -/
theorem existing_kept {f : LogFile} (io : WriteIo) {content : Option Bytes} {frames : List Bytes}
    (kept : Kept frames content) (verified : f.tailVerified = true → ∀ c ∈ content, Settled c)
    (seen : io.sees content = true) (pieces : List Bytes) :
    .create ∉ f.openOps content true ++ pieces.map DiskOp.append ∧
      ∃ c, applyOps (f.openOps content true) content = some c ∧ Settled c ∧ Kept frames (some c) := by
  obtain ⟨c, rfl, -⟩ := content_of_sees seen
  rw [LogFile.openOps, if_pos rfl, Option.getD_some]
  obtain ⟨repaired, result, settled⟩ := settled_repaired f c fun flag => verified flag c rfl
  refine ⟨existing_ops f c pieces, repaired, result, settled, ?_⟩
  rw [← result]
  exact kept.repaired f

/-- Opening a file leaves it settled, with its frames unless it is created anew. -/
theorem opened_kept {f : LogFile} (io : WriteIo) {content : Option Bytes} {frames : List Bytes}
    (kept : Kept frames content) (verified : f.tailVerified = true → ∀ c ∈ content, Settled c)
    (pieces : List Bytes) :
    let ops := f.openOps content (io.sees content)
    ∃ c, applyOps ops content = some c ∧ Settled c ∧
      Kept (if .create ∈ ops ++ pieces.map DiskOp.append then [] else frames) (some c) := by
  cases seen : io.sees content with
  | true =>
    obtain ⟨fresh, c, result, settled, kept⟩ := existing_kept io kept verified seen pieces
    dsimp only
    rw [if_neg fresh]
    exact ⟨c, result, settled, kept⟩
  | false =>
    dsimp only
    rw [LogFile.openOps, if_neg (by decide), if_pos (by simp)]
    exact ⟨MAGIC, rfl, settled_magic, .none _⟩

/-- The frames of the file behind an attempt: those it found, unless it created the file anew,
and its own, behind which the file is settled. -/
theorem attempt_kept {f : LogFile} (flushInterval : Duration) (notice : Option String)
    (env : AttemptEnv) {content : Option Bytes} {frames : List Bytes} (kept : Kept frames content)
    (verified : f.tailVerified = true → ∀ c ∈ content, Settled c) :
    let e := f.writeToFile flushInterval notice env content
    let found := if .create ∈ e.ops then [] else frames
    (e.result = .ok (f.afterSkip, none) ∧ e.ops = []) ∨
    (∃ error, e.result = .error error ∧ Kept found (applyOps e.ops content)) ∨
    ∃ written c, e.result = .ok (f.afterWrite written.frame.consumed, some written) ∧
      written.entries = f.logs.take written.frame.consumed ∧ 0 < written.frame.consumed ∧
      written.frame.consumed ≤ f.logs.length ∧ applyOps e.ops content = some c ∧ Settled c ∧
      Kept (found ++ [written.frame.bytes]) (some c) := by
  intro e found
  have outcome := writeToFile_outcome f flushInterval notice env content
  change Outcome f flushInterval notice env content _ e.ops e.result at outcome
  have same : found = if .create ∈ e.ops then [] else frames := rfl
  clear_value found
  generalize e.ops = ops, e.result = result at outcome same ⊢
  cases outcome with
  | skipped idle => exact Or.inl ⟨rfl, rfl⟩
  | refused error due cause =>
    refine Or.inr (Or.inl ⟨error, rfl, ?_⟩)
    rw [same, if_neg List.not_mem_nil]
    exact kept
  | created error due came unseen cause =>
    refine Or.inr (Or.inl ⟨error, rfl, ?_⟩)
    rw [same, if_pos List.mem_cons_self]
    exact .none _
  | magic error k due came unseen made cause =>
    refine Or.inr (Or.inl ⟨error, rfl, ?_⟩)
    rw [same, if_pos List.mem_cons_self]
    exact .none _
  | repaired error due came seen =>
    obtain ⟨fresh, c, result, -, kept⟩ := existing_kept env.io kept verified seen []
    rw [LogFile.openOps, if_pos rfl, List.map_nil, List.append_nil] at fresh
    rw [LogFile.openOps, if_pos rfl] at result
    refine Or.inr (Or.inl ⟨error, rfl, ?_⟩)
    rw [same, if_neg fresh, result]
    exact kept
  | torn error k frame pieces due came made encoded part whole =>
    obtain ⟨c, result, -, kept⟩ := opened_kept env.io kept verified pieces
    refine Or.inr (Or.inl ⟨error, rfl, ?_⟩)
    rw [same, applyOps_append, result, applyOps_appends]
    exact kept.append _
  | written frame due came made encoded =>
    obtain ⟨c, result, settled, kept⟩ :=
      opened_kept env.io kept verified [frame.framePrefix, frame.payload]
    obtain ⟨bound, progress, -⟩ := encodeFrame_spec encoded
    have whole : [frame.framePrefix, frame.payload].flatten = frame.bytes := by
      simp [EncodedFrame.bytes]
    have written := (encodeFrame_frame encoded).1
    refine Or.inr (Or.inr ⟨⟨_, notice, _, frame⟩, c ++ frame.bytes, rfl, rfl, progress due.1, bound, ?_,
      settled_frame settled written, ?_⟩)
    · rw [applyOps_append, result, applyOps_appends, whole]
    · rw [same]
      exact kept.frame settled written

end OpLog.Format
