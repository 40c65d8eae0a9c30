import OpLog.Format.TailWalk
import OpLog.Source.Outcome

/-!
# A write attempt on a log file

What the operations of an attempt make of the bytes of a log file: the repair leaves the
complete frames (`tailOps_exact`) and never cuts into them (`tailOps_safe`), and the frame
goes behind what the repair leaves.
-/
namespace OpLog.Format
open Library.FrameStream Source

/-- A log file, with its complete frames and what stands behind them. -/
inductive Stores : Option Bytes → List Bytes → Bytes → Prop where
  | absent : Stores none [] []
  | empty : Stores (some []) [] []
  | frames (fs : List Bytes) (t : Bytes) (complete : Complete PossibleFrame fs)
      (tail : Tail PossibleFrame t) : Stores (some (MAGIC ++ (fs.flatten ++ t))) fs t

/-- Absent, empty, or ending where a frame ends. -/
def OnBoundary (content : Option Bytes) : Prop := ∃ fs, Stores content fs []

theorem magic_length : MAGIC.length = 10 := rfl

theorem Stores.complete {content : Option Bytes} {fs : List Bytes} {t : Bytes}
    (h : Stores content fs t) : Complete PossibleFrame fs := by
  cases h with
  | absent => exact complete_nil _
  | empty => exact complete_nil _
  | frames _ _ complete _ => exact complete

/-- A file has one list of complete frames and one tail. -/
theorem Stores.unique {content : Option Bytes} {fs gs : List Bytes} {t u : Bytes}
    (h : Stores content fs t) (h' : Stores content gs u) : fs = gs ∧ t = u := by
  have some_bytes (xs : Bytes) : [] ≠ MAGIC ++ xs := by simp [MAGIC]
  cases h with
  | absent => cases h'; exact ⟨rfl, rfl⟩
  | empty =>
    generalize same : (some [] : Option Bytes) = content at h'
    cases h' with
    | absent => cases same
    | empty => exact ⟨rfl, rfl⟩
    | frames => exact absurd (Option.some.inj same) (some_bytes _)
  | frames fs t complete tail =>
    generalize same : some (MAGIC ++ (fs.flatten ++ t)) = content at h'
    cases h' with
    | absent => cases same
    | empty => exact absurd (Option.some.inj same).symm (some_bytes _)
    | frames gs u complete' tail' =>
      exact split_unique possible_code fs gs t u complete complete' tail tail'
        (List.append_cancel_left (Option.some.inj same))

/-- The magic with complete frames behind it. -/
theorem stores_whole {body : Bytes} {gs : List Bytes} :
    Stores (some (MAGIC ++ body)) gs [] ↔ Complete PossibleFrame gs ∧ body = gs.flatten := by
  constructor
  · intro stores
    generalize same : some (MAGIC ++ body) = content at stores
    generalize none : ([] : Bytes) = tail at stores
    cases stores with
    | absent => cases same
    | empty => simp [MAGIC] at same
    | frames gs tail complete ended =>
      rw [← none, List.append_nil] at same
      exact ⟨complete, List.append_cancel_left (Option.some.inj same)⟩
  · intro whole
    obtain ⟨complete, rfl⟩ := whole
    have stores := Stores.frames gs [] complete (Or.inl rfl)
    rwa [List.append_nil] at stores

/-! ## Operations on the content -/

theorem applyOps_appends (pieces : List Bytes) (content : Bytes) :
    applyOps (pieces.map DiskOp.append) (some content) = some (content ++ pieces.flatten) := by
  induction pieces generalizing content with
  | nil => simp
  | cons piece pieces ih =>
    simp only [List.map_cons, applyOps_cons, DiskOp.apply, Option.map_some, ih,
      List.flatten_cons, List.append_assoc]

theorem sees_eq_false (io : WriteIo) {content : Option Bytes}
    (nothing : content = none ∨ content = some []) : io.sees content = false := by
  rcases nothing with rfl | rfl <;>
  · unfold WriteIo.sees
    simp only [hasContent]
    cases io.metadata with
    | pending => rfl
    | ready r => cases r <;> rfl

/-- What `metadata` sees is there. -/
theorem content_of_sees {io : WriteIo} {content : Option Bytes} (seen : io.sees content = true) :
    ∃ c, content = some c ∧ c ≠ [] := by
  cases content with
  | none =>
    rw [sees_eq_false io (Or.inl rfl)] at seen
    cases seen
  | some c =>
    refine ⟨c, rfl, ?_⟩
    rintro rfl
    rw [sees_eq_false io (Or.inr rfl)] at seen
    cases seen

/-- On a file with content, `metadata` sees none only if it fails. -/
theorem metadata_failed {io : WriteIo} {content : Bytes} (came : io.cameBack)
    (some_bytes : content ≠ []) (unseen : io.sees (some content) = false) :
    ∃ e, io.metadata = .ready (.error e) := by
  cases h : io.metadata with
  | pending => exact absurd h came.2
  | ready r =>
    cases r with
    | error e => exact ⟨e, rfl⟩
    | ok _ => simp [WriteIo.sees, h, hasContent, some_bytes] at unseen

/-! ## The repair -/

/-- What the walker does not report is not repaired. -/
theorem tailOps_none (f : LogFile) {content : Bytes}
    (none : truncatedFrameStart ⟨content, 0⟩ content.length = .ok none) :
    f.tailOps content = [] := by
  unfold LogFile.tailOps
  simp only [none, ite_self]

/-- Nor is what the tail check does not look at. -/
theorem tailOps_long (f : LogFile) {content : Bytes} (long : TAIL_CHECK_MAX_LEN < content.length) :
    f.tailOps content = [] := by
  unfold LogFile.tailOps
  simp only [gt_iff_lt, long, decide_true, Bool.or_true, if_true]

/-- Behind existing content nothing creates the file. -/
theorem existing_ops (f : LogFile) (content : Bytes) (pieces : List Bytes) :
    .create ∉ f.tailOps content ++ pieces.map DiskOp.append := by
  have appends : .create ∉ pieces.map DiskOp.append := by simp
  unfold LogFile.tailOps
  split
  · exact appends
  · split
    · simp
    · exact appends

/-- Behind a check that is not skipped, the repair of a log file leaves its complete
frames. -/
theorem tailOps_exact (f : LogFile) (fs : List Bytes) (t : Bytes)
    (complete : Complete PossibleFrame fs) (tail : Tail PossibleFrame t)
    (verified : f.tailVerified = true → t = [])
    (checked : f.tailVerified = false →
      (MAGIC ++ (fs.flatten ++ t)).length ≤ TAIL_CHECK_MAX_LEN) :
    applyOps (f.tailOps (MAGIC ++ (fs.flatten ++ t))) (some (MAGIC ++ (fs.flatten ++ t))) =
      some (MAGIC ++ fs.flatten) := by
  cases flag : f.tailVerified with
  | true =>
    simp [LogFile.tailOps, flag, verified flag]
  | false =>
    have short : ¬ (MAGIC ++ (fs.flatten ++ t)).length > TAIL_CHECK_MAX_LEN := by
      have := checked flag
      omega
    simp only [LogFile.tailOps, flag, short, decide_false, Bool.or_self, Bool.false_eq_true,
      if_false, truncatedFrameStart_exact fs t complete tail]
    by_cases whole : t = []
    · simp [whole]
    · simp only [whole, if_false, applyOps_cons, applyOps_nil, DiskOp.apply, Option.map_some]
      rw [← List.append_assoc, List.take_left]

/-- Whatever stands behind the complete frames of a file, the repair keeps the frames. -/
theorem tailOps_safe (f : LogFile) (fs : List Bytes) (rest : Bytes) (complete : Complete Frame fs) :
    f.tailOps (MAGIC ++ (fs.flatten ++ rest)) = [] ∨
    ∃ n, f.tailOps (MAGIC ++ (fs.flatten ++ rest)) = [.setLen ((MAGIC ++ fs.flatten).length + n)] := by
  unfold LogFile.tailOps
  split
  · exact Or.inl rfl
  · split
    · rename_i cut found
      have bound := truncatedFrameStart_safe fs rest cut complete found
      refine Or.inr ⟨cut - (MAGIC ++ fs.flatten).length, ?_⟩
      rw [Nat.add_sub_cancel' bound]
    · exact Or.inl rfl

/-- The same on the content: the frames stay, what stands behind them may get shorter. -/
theorem tailOps_keeps (f : LogFile) (fs : List Bytes) (rest : Bytes) (complete : Complete Frame fs) :
    ∃ n, applyOps (f.tailOps (MAGIC ++ (fs.flatten ++ rest))) (some (MAGIC ++ (fs.flatten ++ rest))) =
      some (MAGIC ++ (fs.flatten ++ rest.take n)) := by
  rcases tailOps_safe f fs rest complete with none | ⟨n, cut⟩
  · exact ⟨rest.length, by rw [none, List.take_length, applyOps_nil]⟩
  · refine ⟨n, ?_⟩
    rw [cut, applyOps_cons, applyOps_nil, DiskOp.apply, Option.map_some, ← List.append_assoc,
      List.take_length_add_append, List.append_assoc]

end OpLog.Format
