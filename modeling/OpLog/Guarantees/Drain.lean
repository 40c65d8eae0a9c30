import Mathlib.Algebra.Order.BigOperators.Group.List
import Mathlib.Algebra.Order.Group.Nat
import OpLog.Format.TailWalk
import OpLog.Guarantees.OneFile
import OpLog.Source.PerFile

/-!
# Flush drains the queues

Every pass of a flush attempts every file that has an entry, whatever its interval, and an
attempt that succeeds takes at least one entry. So while the attempts succeed the longest
queue gets shorter with every pass.
-/
namespace OpLog.Guarantees.Drain
open Source

/-- No queue is longer than `m`. -/
def Bounded (w : OpLogWorker) (m : Nat) : Prop :=
  ∀ name key f, w.file? name key = some f → f.logs.length ≤ m

/-- Every attempt of the pass returned `Ok`. -/
def Succeeds (attempts : PassAttempts) : Prop :=
  ∀ files ∈ attempts, ∀ attempt ∈ files.2, attempt.2.result.isOk = true

theorem succeeds_on {attempts : PassAttempts} (succeeds : Succeeds attempts) {name key : String}
    {a : Attempt} (member : a ∈ attempts.on name key) : ∃ written, a.result = .ok written := by
  simp only [PassAttempts.on, Library.KeyedMap.outsOf, List.mem_flatMap, List.mem_filterMap,
    Option.ite_none_right_eq_some, Option.some.injEq] at member
  obtain ⟨files, ⟨named, listed, -, rfl⟩, attempt, one, -, rfl⟩ := member
  have ok := succeeds named listed attempt one
  cases h : attempt.2.result with
  | ok written => exact ⟨written, rfl⟩
  | error e =>
    rw [h] at ok
    cases ok

/-- An interval of zero is never waited for. -/
theorem due_at_once (f : LogFile) (now : Instant) (queued : f.logs ≠ []) :
    f.due (Duration.fromMillis 0) now := by
  refine ⟨queued, ?_⟩
  unfold LogFile.early
  cases f.timeOfFirstAdditionOfLogAfterWrite with
  | none => rfl
  | some t => simp [Duration.fromMillis]

section Warsaw
variable {warsaw : DateTimeUtc → LocalDateTime}

/-- An attempt of a flush that succeeds shortens its queue. -/
theorem attempt_shortens (d : LogDefinition) (env : AttemptEnv) (f : LogFile) (content : Option Bytes)
    (success : ∃ written,
      (d.writeOne warsaw (Duration.fromMillis 0) env f content).2.result = .ok written) :
    (d.writeOne warsaw (Duration.fromMillis 0) env f content).1.logs.length ≤ f.logs.length - 1 := by
  obtain ⟨written, ok⟩ := success
  rcases (writeOne_cases warsaw d (Duration.fromMillis 0) env f content).2 with
    ⟨-, logs, -, idle | ⟨e, failed⟩⟩ | ⟨has, frame, due, encoded, -, logs, -⟩
  · have empty : f.logs = [] := by
      by_contra queued
      exact idle (due_at_once f env.now queued)
    rw [logs, empty]
    exact Nat.zero_le _
  · rw [ok] at failed
    cases failed
  · obtain ⟨-, progress, -⟩ := encodeFrame_spec encoded
    have := progress due.1
    rw [logs, List.length_drop]
    omega

variable (warsaw) in
theorem pass_shortens {w : OpLogWorker} {m : Nat} (bounded : Bounded w m) (env : PassEnv) (disk : Disk)
    (succeeds : Succeeds (w.writePass warsaw (fun _ => Duration.fromMillis 0) env disk).2.2) :
    Bounded (w.writePass warsaw (fun _ => Duration.fromMillis 0) env disk).1 (m - 1) := by
  intro name key f stored
  have visit := w.file?_writePass warsaw (fun _ => Duration.fromMillis 0) env disk name key
  cases before : w.file? name key with
  | none =>
    rw [before] at visit
    rw [visit.1] at stored
    cases stored
  | some g =>
    rw [before] at visit
    obtain ⟨d, content, -, -, file, attempts⟩ := visit
    rw [file] at stored
    cases stored
    have success := succeeds_on succeeds (attempts ▸ List.mem_singleton_self _)
    have shorter := attempt_shortens d (env.attempt name key) g content success
    have := bounded name key g before
    omega

theorem bounded_zero {w : OpLogWorker} : Bounded w 0 ↔ w.logCount = 0 := by
  rw [OpLogWorker.logCount_eq_zero]
  constructor
  · intro h name key f stored
    exact List.eq_nil_of_length_eq_zero (Nat.le_zero.mp (h name key f stored))
  · intro h name key f stored
    rw [h name key f stored]
    exact Nat.le_refl 0

/-- No queue is longer than all of them together. -/
theorem bounded_logCount (w : OpLogWorker) : Bounded w w.logCount := by
  intro name key f stored
  have member := (w.mem_files f).mpr ⟨name, key, stored⟩
  exact List.le_sum_of_mem (List.mem_map.mpr ⟨f, member, rfl⟩)

/-- While all attempts succeed, a flush makes at most a pass for every entry of the longest
queue, and ends with every queue empty unless its deadline ended it before. -/
theorem flushLoop_drains (env : Nat → PassEnv) (left n : Nat) (w : OpLogWorker) (disk : Disk) {m : Nat}
    (bounded : Bounded w m) :
    let out := OpLogWorker.flushLoop warsaw env left n w disk
    (∀ attempts ∈ out.2.2, Succeeds attempts) →
      out.2.2.length ≤ max 1 m ∧ (out.2.2.length ≤ left ∨ m ≤ left + 1 → out.1.logCount = 0) := by
  induction left generalizing n w disk m with
  | zero =>
    intro out succeeds
    have shorter := pass_shortens warsaw bounded (env n) disk (succeeds _ (List.mem_singleton_self _))
    refine ⟨Nat.le_max_left 1 m, fun inTime => ?_⟩
    rcases inTime with none | room
    · exact absurd none (Nat.not_succ_le_zero 0)
    · have zero : m - 1 = 0 := by omega
      rw [zero] at shorter
      exact bounded_zero.mp shorter
  | succ left ih =>
    intro out succeeds
    simp only [out, OpLogWorker.flushLoop] at succeeds ⊢
    have shorter := pass_shortens warsaw bounded (env n) disk
    generalize w.writePass warsaw (fun _ => Duration.fromMillis 0) (env n) disk = pass at *
    obtain ⟨w', disk', attempts⟩ := pass
    dsimp only at *
    by_cases done : w'.logCount = 0
    · rw [if_pos done] at succeeds ⊢
      exact ⟨Nat.le_max_left 1 m, fun _ => done⟩
    · rw [if_neg done] at succeeds ⊢
      have bounded' := shorter (succeeds _ List.mem_cons_self)
      obtain ⟨passes, empty⟩ := ih (n + 1) w' disk' bounded'
        (fun attempts member => succeeds attempts (List.mem_cons_of_mem _ member))
      have some_left : m - 1 ≠ 0 := by
        intro zero
        rw [zero] at bounded'
        exact done (bounded_zero.mp bounded')
      generalize OpLogWorker.flushLoop warsaw env left (n + 1) w' disk' = rest at *
      obtain ⟨final, finalDisk, more⟩ := rest
      dsimp only at *
      rw [List.length_cons]
      refine ⟨by omega, fun inTime => empty ?_⟩
      rcases inTime with few | room
      · exact Or.inl (by omega)
      · exact Or.inr (by omega)

/-! ## A flush that succeeds -/

/-- When every call succeeds, so does the attempt, whatever stands in the file. -/
theorem writeToFile_done (f : LogFile) (flushInterval : Duration) (notice : Option String)
    (env : AttemptEnv) (content : Option Bytes) (done : env.io = allDone)
    (encodes : ∀ header, ∃ frame, encodeFrame env.deflater env.rnd f.logs header notice = .ok frame) :
    ∃ out, (f.writeToFile flushInterval notice env content).result = .ok out := by
  by_cases due : f.due flushInterval env.now
  · rw [writeToFile_due f flushInterval notice env content due, done]
    have frame (has : Bool) : ∃ out, (f.writeFrame notice env has).result = .ok out := by
      obtain ⟨frame, encoded⟩ := encodes (f.headerFor has)
      unfold LogFile.writeFrame
      simp only [encoded, done]
      exact ⟨_, rfl⟩
    have opened (has : Bool) : (f.openFile allDone content has).result = .ok () := by
      cases has with
      | false => rfl
      | true =>
        obtain ⟨found, total⟩ := Format.truncatedFrameStart_total (content.getD [])
        cases verified : f.tailVerified with
        | true =>
          unfold LogFile.openFile
          simp only [verified]
          rfl
        | false =>
          simp only [LogFile.openFile, verified, cutInterruptedTail, cutInterruptedTailUpTo, total]
          by_cases long : (content.getD []).length > TAIL_CHECK_MAX_LEN
          · simp only [long, if_true]
            rfl
          · simp only [long, if_false]
            cases found with
            | none => rfl
            | some cut =>
              simp only [ne_eq, not_true_eq_false, if_false]
              rfl
    obtain ⟨out, written⟩ := frame (hasContent (.ok ()) content)
    refine ⟨out, ?_⟩
    change (f.openFile allDone content (hasContent (.ok ()) content) >>=
      fun _ => f.writeFrame notice env (hasContent (.ok ()) content)).result = .ok out
    rw [Effect.bind_ok (opened _)]
    exact written
  · have outcome := writeToFile_outcome f flushInterval notice env content
    generalize (f.writeToFile flushInterval notice env content).ops = ops at outcome
    generalize (f.writeToFile flushInterval notice env content).result = result at outcome ⊢
    cases outcome with
    | skipped idle => exact ⟨_, rfl⟩
    | _ => exact absurd ‹f.due flushInterval env.now› due

/-- Every call of every attempt succeeds, and the compressor does. -/
def Done (env : PassEnv) : Prop :=
  ∀ name key, (env.attempt name key).io = allDone ∧
    (env.attempt name key).deflater = Format.plainDeflater

variable (warsaw) in
theorem writePass_done (w : OpLogWorker) (interval : LogDefinition → Duration) (env : PassEnv)
    (disk : Disk) (done : Done env) : Succeeds (w.writePass warsaw interval env disk).2.2 := by
  rintro ⟨name, files⟩ listed ⟨key, attempt⟩ made
  obtain ⟨d, disk', rfl⟩ := Library.KeyedMap.mem_accumEntries_outs _ _ _ listed
  obtain ⟨f, disk'', rfl⟩ := Library.KeyedMap.mem_accumEntries_outs _ _ _ made
  obtain ⟨io, deflater⟩ := done name key
  obtain ⟨⟨f', written⟩, ok⟩ := writeToFile_done f (interval d)
    (d.backlogNotice warsaw f (env.attempt name key).utcNow) (env.attempt name key)
    (disk'' f.diskPath) io
    (fun header => by rw [deflater]; exact Format.encodeFrame_plain _ _ _ _)
  simp only [writeOne_ok ok]
  rfl

theorem flushLoop_done (env : Nat → PassEnv) (done : ∀ n, Done (env n)) (left n : Nat)
    (w : OpLogWorker) (disk : Disk) :
    ∀ attempts ∈ (OpLogWorker.flushLoop warsaw env left n w disk).2.2, Succeeds attempts := by
  have all := OpLogWorker.flushLoop_invariant warsaw
    (fun _ past => ∀ attempts, .pass attempts ∈ past → Succeeds attempts) env ?_ left n w [] disk
    (by simp)
  · intro attempts member
    exact all attempts (List.mem_map_of_mem member)
  · intro n w past disk succeeds out attempts member
    rcases List.mem_append.mp member with before | last
    · exact succeeds attempts before
    · cases List.mem_singleton.mp last
      exact writePass_done warsaw w (fun _ => Duration.fromMillis 0) (env n) disk (done n)

variable (warsaw) in
/-- With enough passes before its deadline such a flush empties every queue. -/
theorem flush_empties (w : OpLogWorker) (env : OpLogWorker.FlushEnv) (disk : Disk)
    (done : ∀ n, Done (env.pass n)) (room : w.logCount ≤ env.deadline) :
    (w.flush warsaw env disk).1.logCount = 0 :=
  (flushLoop_drains env.pass env.deadline 0 w disk (bounded_logCount w)
    (flushLoop_done env.pass done env.deadline 0 w disk)).2 (Or.inr (Nat.le_succ_of_le room))

end Warsaw
end OpLog.Guarantees.Drain
