import OpLog.Format.Settled
import OpLog.Source.LateBytes

/-!
# A write attempt that others write into

The tail check judges the bytes it measured, whatever lands behind them meanwhile
(`truncatedFrameStart_measured`), so it cuts nothing off a settled content and whatever was
appended to it (`attemptAmong_keeps`). What stands ahead of the frame of an attempt that
succeeds depends on where the bytes of others landed (`writeToFileAmong_written`).
-/
namespace OpLog.Format
open Library.FrameStream Source

/-! ## The measured length -/

/-- Bytes behind the measured length are neither read nor waited for. -/
theorem walkFrames_measured (fuel pos : Nat) (content more : Bytes) :
    walkFrames fuel content.length pos ⟨content ++ more, pos⟩ =
      walkFrames fuel content.length pos ⟨content, pos⟩ := by
  induction fuel generalizing pos with
  | zero => simp only [walkFrames]
  | succ fuel ih =>
    by_cases inside : pos < content.length
    · have window : ((content ++ more).drop pos).take (min 8 (content.length - pos)) =
          (content.drop pos).take (min 8 (content.length - pos)) := by
        rw [List.drop_append_of_le_length (by omega), List.take_append_of_le_length]
        rw [List.length_drop]
        omega
      simp only [walkFrames, if_pos inside, Reader.readExact, window]
      rw [if_pos (by rw [List.length_append]; omega), if_pos (by omega)]
      simp only [bind, Except.bind]
      split
      · rfl
      · split
        · rfl
        · rfl
        · split
          · rfl
          · simp only [seek_next, ih]
    · simp only [walkFrames, if_neg inside]

theorem truncatedFrameStart_measured (content more : Bytes) :
    truncatedFrameStart ⟨content ++ more, 0⟩ content.length =
      truncatedFrameStart ⟨content, 0⟩ content.length := by
  unfold truncatedFrameStart
  by_cases short : content.length < MAGIC.length
  · rw [if_pos short, if_pos short]
  · have magic : ((content ++ more).drop 0).take MAGIC.length = (content.drop 0).take MAGIC.length := by
      rw [List.drop_zero, List.drop_zero, List.take_append_of_le_length (by omega)]
    simp only [if_neg short, Reader.readExact, magic]
    rw [if_pos (by rw [List.length_append]; omega), if_pos (by omega)]
    simp only [bind, Except.bind, Nat.zero_add, walkFrames_measured]

/-! ## Settled contents are never cut into -/

/-- What is appended to a settled content never makes a tail check cut into it. -/
theorem settled_iff_solid (content : Bytes) : Settled content ↔ Solid content := by
  constructor
  · intro settled more p short cut
    by_contra inside
    obtain ⟨fs, t, same, complete, torn, rfl⟩ := (truncatedFrameStart_iff _ p).mp cut
    have long : MAGIC.length ≤ content.length := by
      rw [List.length_append] at inside
      omega
    obtain ⟨body, rfl⟩ : ∃ body, content = MAGIC ++ body := by
      rcases List.append_eq_append_iff.mp same with ⟨rest, magic, -⟩ | ⟨body, split, -⟩
      · have total := congrArg List.length magic
        rw [List.length_append] at total
        have none : rest = [] := List.eq_nil_of_length_eq_zero (by omega)
        rw [none, List.append_nil] at magic
        exact ⟨[], by rw [magic, List.append_nil]⟩
      · exact ⟨body, split⟩
    rw [List.append_assoc, List.append_cancel_left_eq] at same
    rcases split_stream complete (Or.inr torn) same with
      ⟨gs, u, rfl, complete', torn'⟩ | ⟨gs, hs, rfl, rfl, -⟩
    · have cut' := (truncatedFrameStart_iff (MAGIC ++ (gs.flatten ++ u)) _).mpr
        ⟨gs, u, rfl, complete', torn', rfl⟩
      rcases settled with beyond | whole
      · rw [List.length_append] at short
        omega
      · rw [whole] at cut'
        cases cut'
    · simp only [List.length_append, List.flatten_append] at inside
      omega
  · intro solid
    by_cases long : TAIL_CHECK_MAX_LEN < content.length
    · exact Or.inl long
    · obtain ⟨verdict, found⟩ := truncatedFrameStart_total content
      cases verdict with
      | none => exact Or.inr found
      | some p =>
        have behind := solid [] p (by rw [List.append_nil]; omega) (by rwa [List.append_nil])
        obtain ⟨fs, t, same, -, torn, rfl⟩ := (truncatedFrameStart_iff _ p).mp found
        have total := congrArg List.length same
        have some_left := List.length_pos_iff.mpr torn.1
        simp only [List.length_append] at total behind
        omega

/-! ## What an attempt spares -/

/-- None of the operations cuts into the first bytes of the file. -/
def Spares (kept : Bytes) (ops : List DiskOp) : Prop := ∀ n, .setLen n ∈ ops → kept.length ≤ n

theorem applyOps_spares {kept : Bytes} {ops : List DiskOp} (spares : Spares kept ops)
    (fresh : .create ∉ ops) (more : Bytes) :
    ∃ behind, applyOps ops (some (kept ++ more)) = some (kept ++ behind) := by
  induction ops generalizing more with
  | nil => exact ⟨more, rfl⟩
  | cons op ops ih =>
    have later := @ih (fun n member => spares n (List.mem_cons_of_mem op member))
      (fun member => fresh (List.mem_cons_of_mem op member))
    cases op with
    | create => exact absurd List.mem_cons_self fresh
    | append bytes =>
      rw [applyOps_cons, DiskOp.apply, Option.map_some, List.append_assoc]
      exact later (more ++ bytes)
    | setLen n =>
      have cut := spares n List.mem_cons_self
      rw [applyOps_cons, DiskOp.apply, Option.map_some, ← Nat.add_sub_cancel' cut,
        List.take_length_add_append]
      exact later _

section Spares
variable {α β : Type} {kept : Bytes}

theorem spares_bind {e : Effect α} {next : α → Effect β} (first : Spares kept e.ops)
    (rest : ∀ a, e.result = .ok a → Spares kept (next a).ops) : Spares kept (e >>= next).ops := by
  cases ended : e.result with
  | error err => rwa [Effect.bind_error ended]
  | ok a =>
    rw [Effect.bind_ok ended]
    intro n member
    rcases List.mem_append.mp member with here | later
    · exact first n here
    · exact rest a ended n later

theorem spares_call (outcome : IoResult α) : Spares kept (Effect.call outcome).ops := by
  simp [Spares, Effect.call]

theorem spares_await (awaited : Awaited) : Spares kept (Effect.await awaited).ops := by
  cases awaited <;> simp [Spares, Effect.await, Effect.call, Effect.pure]

theorem spares_return (a : α) : Spares kept (pure a : Effect α).ops := by
  simp [Spares, Effect.pure, pure]

theorem spares_landing (bytes : Bytes) : Spares kept (landing bytes).ops := by
  unfold landing
  split <;> simp [Spares]

theorem spares_writeAll (outcome : WriteOutcome) (bytes : Bytes) :
    Spares kept (writeAll outcome bytes).ops := by
  cases outcome <;> simp [Spares, writeAll]

theorem spares_createFile (outcome : CreateOutcome) : Spares kept (createFile outcome).ops := by
  cases outcome with
  | done => simp [Spares, createFile]
  | failed error touched => cases touched <;> simp [Spares, createFile]

theorem spares_setLen (outcome : IoResult Unit) {n : Nat} (behind : kept.length ≤ n) :
    Spares kept (setLen outcome n).ops := by
  cases outcome with
  | error e => simp [Spares, setLen]
  | ok u =>
    intro m member
    simp only [setLen, List.mem_singleton, DiskOp.setLen.injEq] at member
    rwa [member]

/-- The tail check cuts behind a settled part of the file only. -/
theorem spares_cut (settled : Settled kept) (io : TailIo) (others : Others) (more : Bytes) :
    Spares kept (cutInterruptedTailUpToAmong io others (kept ++ more) TAIL_CHECK_MAX_LEN).ops := by
  unfold cutInterruptedTailUpToAmong
  refine spares_bind (spares_call _) fun _ _ => spares_bind (spares_call _) fun _ _ => ?_
  dsimp only
  split
  · exact spares_return _
  · rename_i short
    refine spares_bind (spares_call _) fun _ _ => spares_bind (spares_landing _) fun _ _ =>
      spares_bind (spares_call _) fun cut found => ?_
    cases cut with
    | none => exact spares_return _
    | some p =>
      refine spares_bind (spares_call _) fun _ _ => ?_
      split
      · exact spares_return _
      · refine spares_bind (spares_landing _) fun _ _ => spares_setLen _ ?_
        have verdict : truncatedFrameStart ⟨kept ++ more, 0⟩ (kept ++ more).length = .ok (some p) := by
          rw [← truncatedFrameStart_measured _ others.walk]
          exact found
        exact (settled_iff_solid kept).mp settled more p (Nat.le_of_not_lt short) verdict

/-- Whatever fails in an attempt and whatever lands meanwhile: it cuts behind a settled part of
the file only. -/
theorem attemptAmong_spares (settled : Settled kept) (f : LogFile) (flushInterval : Duration)
    (notice : Option String) (env : AttemptEnv) (others : Others) (more : Bytes) :
    Spares kept (f.writeToFileAmong flushInterval notice env others (some (kept ++ more))).ops := by
  unfold LogFile.writeToFileAmong
  split
  · exact spares_return _
  · split
    · exact spares_return _
    · refine spares_bind (spares_await _) fun _ _ => spares_bind (spares_await _) fun _ _ =>
        spares_bind ?_ fun _ _ => spares_bind (spares_call _) fun _ _ =>
        spares_bind (spares_landing _) fun _ _ => spares_bind (spares_writeAll _ _) fun _ _ =>
        spares_bind (spares_landing _) fun _ _ => spares_bind (spares_writeAll _ _) fun _ _ =>
        spares_bind (spares_call _) fun _ _ => spares_return _
      unfold LogFile.openFileAmong
      split
      · dsimp only
        split
        · exact spares_call _
        · exact spares_bind (spares_cut settled env.io.tail others more) fun _ _ => spares_call _
      · exact spares_bind (spares_createFile _) fun _ _ => spares_writeAll _ _

/-- A settled part of the file stays where it is, unless the attempt creates the file anew. -/
theorem attemptAmong_keeps (settled : Settled kept) (f : LogFile) (flushInterval : Duration)
    (notice : Option String) (env : AttemptEnv) (others : Others) (more : Bytes) :
    let ops := (f.writeToFileAmong flushInterval notice env others (some (kept ++ more))).ops
    .create ∉ ops → ∃ behind, applyOps ops (some (kept ++ more)) = some (kept ++ behind) := by
  intro ops fresh
  exact applyOps_spares (attemptAmong_spares settled f flushInterval notice env others more) fresh more

end Spares

/-! ## What an attempt that succeeds leaves -/

/-- From the content the computation comes to its end with `a` and leaves the other content. -/
def Ends {α : Type} (e : Effect α) (content : Option Bytes) (a : α) (after : Option Bytes) : Prop :=
  e.result = .ok a ∧ applyOps e.ops content = after

section Ends
variable {α β : Type}

variable {e : Effect α} {next : α → Effect β} {content after : Option Bytes} {found : Bytes} {b : β}

theorem ends_bind_ok {a : α} (ended : e.result = .ok a) :
    Ends (e >>= next) content b after ↔ Ends (next a) (applyOps e.ops content) b after := by
  rw [Effect.bind_ok ended, Ends, Ends, applyOps_append]

theorem ends_bind_error {err : IoError} (failed : e.result = .error err) :
    ¬ Ends (e >>= next) content b after := by
  rw [Effect.bind_error failed]
  intro ends
  cases ends.1

theorem ends_bind :
    Ends (e >>= next) content b after ↔ ∃ a mid, Ends e content a mid ∧ Ends (next a) mid b after := by
  cases ended : e.result with
  | error err => exact iff_of_false (ends_bind_error ended) (by simp [Ends, ended])
  | ok a =>
    rw [ends_bind_ok ended]
    simp [Ends, ended]

theorem ends_return {a : β} : Ends (pure a) content b after ↔ a = b ∧ content = after := by
  simp [Ends, Effect.pure, pure]

theorem ends_call {outcome : IoResult α} {a : α} :
    Ends (Effect.call outcome) content a after ↔ outcome = .ok a ∧ content = after := Iff.rfl

theorem ends_setLen {outcome : IoResult Unit} {n : Nat} {u : Unit} :
    Ends (setLen outcome n) (some found) u after ↔
      outcome = .ok () ∧ some (found.take n) = after := by
  cases outcome <;> simp [Ends, setLen, DiskOp.apply]

/-! The calls of an attempt, ahead of what follows them. -/

theorem ends_call_bind {outcome : IoResult α} : Ends (Effect.call outcome >>= next) content b after ↔
    ∃ a, outcome = .ok a ∧ Ends (next a) content b after := by
  simp only [ends_bind, ends_call, and_assoc, exists_and_left, exists_eq_left']

theorem ends_await_bind {awaited : Awaited} {next : IoResult Unit → Effect β} :
    Ends (Effect.await awaited >>= next) content b after ↔
      ∃ result, awaited = .ready result ∧ Ends (next result) content b after := by
  cases awaited with
  | pending => simp [Effect.await, ends_call_bind]
  | ready r =>
    rw [ends_bind_ok (a := r) rfl]
    simp [Effect.await, Effect.pure]

theorem ends_landing_bind {bytes : Bytes} {next : Unit → Effect β} :
    Ends (landing bytes >>= next) (some found) b after ↔
      Ends (next ()) (some (found ++ bytes)) b after := by
  rw [ends_bind_ok (a := ()) rfl]
  cases bytes <;> simp [landing, DiskOp.apply]

theorem ends_writeAll_bind {outcome : WriteOutcome} {bytes : Bytes} {next : Unit → Effect β} :
    Ends (writeAll outcome bytes >>= next) (some found) b after ↔
      outcome = .done ∧ Ends (next ()) (some (found ++ bytes)) b after := by
  cases outcome with
  | done => simp [ends_bind_ok, writeAll, DiskOp.apply]
  | failed e k => simp [ends_bind_error, writeAll]

end Ends

/-- What the tail check leaves: it cuts only if nothing landed under its walk, and what lands
behind the second length check goes with the cut. -/
def checkedAmong (f : LogFile) (others : Others) (content : Bytes) : Bytes :=
  if f.tailVerified || decide (content.length > TAIL_CHECK_MAX_LEN) then content
  else match truncatedFrameStart ⟨content, 0⟩ content.length with
    | .ok (some cut) => if others.walk.isEmpty then content.take cut else content ++ others.walk
    | _ => content ++ others.walk

/-- What stands ahead of the frame. -/
def aheadAmong (f : LogFile) (others : Others) (content : Bytes) : Bytes :=
  checkedAmong f others content ++ others.opened

theorem cut_inside {content : Bytes} {p : Nat}
    (found : truncatedFrameStart ⟨content, 0⟩ content.length = .ok (some p)) : p ≤ content.length := by
  obtain ⟨fs, t, rfl, -, -, rfl⟩ := (truncatedFrameStart_iff content p).mp found
  simp only [List.length_append]
  omega

theorem ends_cut {f : LogFile} {io : TailIo} {others : Others} {content : Bytes}
    {after : Option Bytes} {u : Unit} (unverified : f.tailVerified = false)
    (ends : Ends (cutInterruptedTailUpToAmong io others content TAIL_CHECK_MAX_LEN) (some content)
      u after) : after = some (checkedAmong f others content) := by
  unfold cutInterruptedTailUpToAmong at ends
  unfold checkedAmong
  simp only [ends_call_bind] at ends
  obtain ⟨-, -, -, -, ends⟩ := ends
  by_cases long : content.length > TAIL_CHECK_MAX_LEN
  · simp only [if_pos long, ends_return] at ends
    simp only [long, decide_true, Bool.or_true, if_true]
    exact ends.2.symm
  · simp only [if_neg long, ends_call_bind, ends_landing_bind, truncatedFrameStart_measured] at ends
    obtain ⟨-, -, cut, found, ends⟩ := ends
    simp only [unverified, long, decide_false, Bool.or_self, Bool.false_eq_true, if_false, found]
    cases cut with
    | none => exact (ends_return.mp ends).2.symm
    | some p =>
      rw [ends_call_bind] at ends
      obtain ⟨-, -, ends⟩ := ends
      cases walk : others.walk with
      | nil =>
        simp only [walk, List.append_nil, ne_eq, not_true_eq_false, if_false, ends_landing_bind,
          ends_setLen, List.take_append_of_le_length (cut_inside found)] at ends
        exact ends.2.symm
      | cons b walk' =>
        rw [if_pos (by simp [walk]), ends_return, walk] at ends
        exact ends.2.symm

theorem ends_open {f : LogFile} {io : WriteIo} {others : Others} {content : Bytes}
    {after : Option Bytes} {u : Unit}
    (ends : Ends (f.openFileAmong io others (some content) true) (some content) u after) :
    after = some (checkedAmong f others content) := by
  unfold LogFile.openFileAmong at ends
  simp only [if_true, Option.getD_some] at ends
  cases verified : f.tailVerified with
  | true =>
    simp only [verified, if_true, ends_call] at ends
    simp [checkedAmong, verified, ends.2]
  | false =>
    simp only [verified, Bool.false_eq_true, if_false, ends_bind, ends_call] at ends
    obtain ⟨_, _, ⟨joined, ops⟩, -, rfl⟩ := ends
    cases join : io.tail.join with
    | error e => simp [cutInterruptedTailAmong, join, bind, Except.bind] at joined
    | ok _ =>
      simp only [cutInterruptedTailAmong, join, bind, Except.bind] at joined ops
      exact ends_cut verified ⟨joined, ops⟩

theorem ends_create {f : LogFile} {io : WriteIo} {others : Others} {content after : Option Bytes}
    {u : Unit} (ends : Ends (f.openFileAmong io others content false) content u after) :
    after = some MAGIC := by
  unfold LogFile.openFileAmong at ends
  simp only [Bool.false_eq_true, if_false] at ends
  obtain ⟨_, _, created, written⟩ := ends_bind.mp ends
  cases made : io.create with
  | failed e touched => simp [Ends, createFile, made] at created
  | done =>
    have empty := created.2
    simp only [createFile, made, applyOps_cons, applyOps_nil, DiskOp.apply] at empty
    subst empty
    cases magic : io.magic with
    | failed e k => simp [Ends, writeAll, magic] at written
    | done =>
      have whole := written.2
      simp only [writeAll, magic, applyOps_cons, applyOps_nil, DiskOp.apply, Option.map_some,
        List.nil_append] at whole
      exact whole.symm

/-- An attempt that succeeds was not due, or wrote its frame behind what the opening and the
others left, in two pieces. -/
theorem ends_attempt {f f' : LogFile} {flushInterval : Duration} {notice : Option String}
    {env : AttemptEnv} {others : Others} {content after : Option Bytes} {written : Option Written}
    (ends : Ends (f.writeToFileAmong flushInterval notice env others content) content
      (f', written) after) :
    (written = none ∧ f' = f.afterSkip ∧ after = content) ∨
    ∃ frame, f' = f.afterWrite frame.consumed ∧
      encodeFrame env.deflater env.rnd f.logs (f.headerFor (env.io.sees content)) notice =
        .ok frame ∧
      written = some ⟨f.headerFor (env.io.sees content), notice, f.logs.take frame.consumed, frame⟩ ∧
      ((env.io.sees content = false ∧ after = some (MAGIC ++ frame.bytes)) ∨
        ∃ found, content = some found ∧ env.io.sees content = true ∧
          after = some (aheadAmong f others found ++
            (frame.framePrefix ++ (others.within ++ frame.payload)))) := by
  unfold LogFile.writeToFileAmong at ends
  unfold LogFile.afterSkip
  split at ends
  · rename_i idle
    obtain ⟨same, unchanged⟩ := ends_return.mp ends
    cases same
    exact Or.inl ⟨rfl, by rw [if_pos idle], unchanged.symm⟩
  · rename_i queued
    split at ends
    · obtain ⟨same, unchanged⟩ := ends_return.mp ends
      cases same
      exact Or.inl ⟨rfl, by rw [if_neg queued], unchanged.symm⟩
    · simp only [ends_await_bind] at ends
      obtain ⟨-, -, metadata, measured, ends⟩ := ends
      have sees : env.io.sees content = hasContent metadata content := by
        unfold WriteIo.sees
        simp only [measured]
      rw [← sees] at ends
      obtain ⟨_, mid, opened, ends⟩ := ends_bind.mp ends
      rw [ends_call_bind] at ends
      obtain ⟨frame, encoded, ends⟩ := ends
      cases seen : env.io.sees content with
      | false =>
        rw [seen] at opened encoded
        obtain rfl := ends_create opened
        simp only [seen, Bool.false_eq_true, if_false, ends_landing_bind, ends_writeAll_bind,
          ends_call_bind, ends_return] at ends
        obtain ⟨-, -, -, -, result, rfl⟩ := ends
        cases result
        exact Or.inr ⟨frame, rfl, encoded, rfl, Or.inl ⟨rfl, by simp [EncodedFrame.bytes]⟩⟩
      | true =>
        obtain ⟨found, rfl, -⟩ := content_of_sees seen
        rw [seen] at opened encoded
        obtain rfl := ends_open opened
        simp only [seen, if_true, ends_landing_bind, ends_writeAll_bind, ends_call_bind,
          ends_return] at ends
        obtain ⟨-, -, -, -, result, rfl⟩ := ends
        cases result
        exact Or.inr ⟨frame, rfl, encoded, rfl, Or.inr ⟨found, rfl, rfl, by simp [aheadAmong]⟩⟩

/-! ## Where the frame goes -/

/-- With nothing landing under the walk or ahead of the frame, the check leaves the file
settled, whatever landed before it and whatever goes with its cut. -/
theorem settled_aheadAmong {f : LogFile} {others : Others} {content : Bytes}
    (verified : f.tailVerified = true → Settled content) (walk : others.walk = [])
    (opened : others.opened = []) : Settled (aheadAmong f others content) := by
  obtain ⟨repaired, result, settled⟩ := settled_repaired f content verified
  have same : aheadAmong f others content = repaired := by
    unfold LogFile.tailOps at result
    unfold aheadAmong checkedAmong
    rw [opened, walk, List.append_nil]
    split at result
    · rename_i unchecked
      rw [if_pos unchecked]
      exact Option.some.inj result
    · rename_i checked
      rw [if_neg checked]
      obtain ⟨verdict, found⟩ := truncatedFrameStart_total content
      rw [found] at result ⊢
      cases verdict with
      | none =>
        rw [List.append_nil]
        exact Option.some.inj result
      | some p => exact Option.some.inj result
  rwa [same]

/-- What stands between the complete frames of a log file and the new frame: its tail where
nothing checks it, and bytes under the walk keep the tail from being cut. -/
def landedAhead (f : LogFile) (others : Others) (content tail : Bytes) : Bytes :=
  (if f.tailVerified || decide (content.length > TAIL_CHECK_MAX_LEN) then tail
    else if others.walk.isEmpty then [] else tail ++ others.walk) ++ others.opened

theorem aheadAmong_log {f : LogFile} {others : Others} {fs : List Bytes} {tail : Bytes}
    (complete : Complete PossibleFrame fs) (ended : Tail PossibleFrame tail) :
    aheadAmong f others (MAGIC ++ (fs.flatten ++ tail)) =
      MAGIC ++ (fs.flatten ++ landedAhead f others (MAGIC ++ (fs.flatten ++ tail)) tail) := by
  unfold aheadAmong checkedAmong landedAhead
  split
  · simp only [List.append_assoc]
  · rw [truncatedFrameStart_exact fs tail complete ended]
    by_cases none : tail = []
    · subst none
      cases others.walk <;> simp
    · simp only [none, if_false]
      cases others.walk with
      | nil => simp [← List.append_assoc]
      | cons b walk => simp

end OpLog.Format
