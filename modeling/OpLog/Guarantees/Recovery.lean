import OpLog.Format.Attempt
import OpLog.Guarantees.OneFile

/-!
# Recovery over whole runs

A file that only this worker writes stays a log file whatever happens to its attempts:
every attempt that succeeds leaves the magic and complete frames only, those that were
there and the new one. The invariant is that the tail flag is set only while the file
ends on a frame boundary; it is carried through failures at every offset, restarts,
clean-up, deletion and re-creation.
-/
namespace OpLog.Guarantees.Recovery
open Library Library.FrameStream Format Source

/-- What is assumed of an attempt that is due, in the state it meets: the metadata of an
existing file does not fail, a creating write that is cut short leaves nothing of the magic
or all of it, the tail is only checked in a file the check accepts, and the size of the
payload fits the five size bytes of the format. -/
structure Assumed (f : LogFile) (notice : Option String) (env : AttemptEnv)
    (content : Option Bytes) : Prop where
  metadata : content ≠ none → ∀ e, env.io.metadata ≠ .ready (.error e)
  magic : env.io.sees content = false → ∀ e k, env.io.magic = .failed e k → k = 0 ∨ MAGIC.length ≤ k
  checked : f.tailVerified = false → ∀ c, content = some c → c.length ≤ TAIL_CHECK_MAX_LEN
  fits : ∀ frame, encodeFrame env.deflater env.rnd f.logs (f.headerFor (env.io.sees content)) notice =
    .ok frame → frame.payload.length < 2 ^ 35

/-! ## One attempt -/

/-- What an opening that succeeds leaves on a log file: its magic and complete frames. -/
theorem openOps_stores {f : LogFile} {notice : Option String} {env : AttemptEnv}
    {content : Option Bytes} {fs : List Bytes} {t : Bytes} (stores : Stores content fs t)
    (verified : f.tailVerified = true → t = []) (assumed : Assumed f notice env content)
    (came : env.io.cameBack) :
    applyOps (f.openOps content (env.io.sees content)) content = some (MAGIC ++ fs.flatten) := by
  cases stores with
  | absent =>
    rw [sees_eq_false env.io (Or.inl rfl)]
    rfl
  | empty =>
    rw [sees_eq_false env.io (Or.inr rfl)]
    rfl
  | frames fs t complete tail =>
    have sees : env.io.sees (some (MAGIC ++ (fs.flatten ++ t))) = true := by
      cases h : env.io.metadata with
      | pending => exact absurd h came.2
      | ready r =>
        cases r with
        | error e => exact absurd h (assumed.metadata (by simp) e)
        | ok _ => simp [WriteIo.sees, h, hasContent, MAGIC]
    rw [sees]
    exact tailOps_exact f fs t complete tail verified (fun flag => assumed.checked flag _ rfl)

/-- A prefix of a frame behind complete frames. -/
theorem stores_torn {fs : List Bytes} {frame : Bytes} (complete : Complete PossibleFrame fs)
    (possible : PossibleFrame frame) (k : Nat) :
    ∃ gs u, Stores (some (MAGIC ++ fs.flatten ++ frame.take k)) gs u := by
  rcases take_frame possible k with tail | whole
  · exact ⟨fs, _, by rw [List.append_assoc]; exact .frames fs _ complete tail⟩
  · refine ⟨fs ++ [frame], [], ?_⟩
    have all := Stores.frames (fs ++ [frame]) [] (complete_snoc complete possible) (Or.inl rfl)
    simpa [whole] using all

/-- On a log file an attempt is skipped, or fails and leaves a log file, or succeeds and
leaves its frame behind the complete ones. -/
theorem attempt_stores {f : LogFile} (flushInterval : Duration) (notice : Option String)
    {env : AttemptEnv} {content : Option Bytes} {fs : List Bytes} {t : Bytes}
    (stores : Stores content fs t) (verified : f.tailVerified = true → t = [])
    (assumed : f.due flushInterval env.now → Assumed f notice env content) :
    let e := f.writeToFile flushInterval notice env content
    (e.ops = [] ∧ e.result = .ok (f.afterSkip, none)) ∨
    (∃ error, e.result = .error error ∧ ∃ gs u, Stores (applyOps e.ops content) gs u) ∨
    ∃ written, e.result = .ok (f.afterWrite written.frame.consumed, some written) ∧
      PossibleFrame written.frame.bytes ∧
      applyOps e.ops content = some (MAGIC ++ (fs ++ [written.frame.bytes]).flatten) := by
  intro e
  have complete := stores.complete
  have opened (due : f.due flushInterval env.now) := openOps_stores stores verified (assumed due)
  have boundary : ∀ gs, Complete PossibleFrame gs →
      ∃ hs u, Stores (some (MAGIC ++ gs.flatten)) hs u :=
    fun gs h => ⟨gs, [], by simpa using Stores.frames gs [] h (Or.inl rfl)⟩
  have outcome := writeToFile_outcome f flushInterval notice env content
  change Outcome f flushInterval notice env content _ e.ops e.result at outcome
  generalize e.ops = ops, e.result = result at outcome ⊢
  cases outcome with
  | skipped idle => exact Or.inl ⟨rfl, rfl⟩
  | refused error due cause => exact Or.inr (Or.inl ⟨error, rfl, fs, t, stores⟩)
  | created error due came unseen cause => exact Or.inr (Or.inl ⟨error, rfl, [], [], .empty⟩)
  | magic error k due came unseen made cause =>
    refine Or.inr (Or.inl ⟨error, rfl, ?_⟩)
    have whole : k = 0 ∨ MAGIC.length ≤ k := by
      rcases cause with cut | ⟨-, all, -⟩
      · exact (assumed due).magic unseen error k cut
      · exact Or.inr (Nat.le_of_eq all.symm)
    rcases whole with rfl | all
    · exact ⟨[], [], .empty⟩
    · simp only [applyOps_cons, applyOps_nil, DiskOp.apply, Option.map_some, List.nil_append,
        List.take_of_length_le all]
      simpa using boundary [] (complete_nil _)
  | repaired error due came existing =>
    refine Or.inr (Or.inl ⟨error, rfl, ?_⟩)
    have repaired := opened due came
    rw [existing, LogFile.openOps, if_pos rfl] at repaired
    rw [repaired]
    exact boundary fs complete
  | torn error k frame pieces due came made encoded part whole =>
    refine Or.inr (Or.inl ⟨error, rfl, ?_⟩)
    rw [applyOps_append, opened due came, applyOps_appends, part]
    exact stores_torn complete ((encodeFrame_frame encoded).2 ((assumed due).fits frame encoded)) k
  | written frame due came made encoded =>
    refine Or.inr (Or.inr ⟨⟨_, notice, _, frame⟩, rfl,
      (encodeFrame_frame encoded).2 ((assumed due).fits frame encoded), ?_⟩)
    rw [applyOps_append, opened due came, applyOps_appends]
    simp [EncodedFrame.bytes]

/-! ## Runs -/

section Runs
variable (warsaw : DateTimeUtc → LocalDateTime)

/-- Every attempt of the run that is due is one of which the above is assumed. -/
def EventAssumed (s : FileState) : FileEvent → Prop
  | .write d flushInterval env => ∀ f, s.live = some f → f.due flushInterval env.now →
      Assumed f (d.backlogNotice warsaw f env.utcNow) env s.disk
  | _ => True

/-- The write left the magic and the complete frames that were there, then its own frame. -/
def Appends (w : FileWrite) : Prop :=
  ∃ fs t, Stores w.before fs t ∧ Complete PossibleFrame (fs ++ [w.written.frame.bytes]) ∧
    w.after = some (MAGIC ++ (fs ++ [w.written.frame.bytes]).flatten)

/-- A log file, whose tail is whole while the flag says so. -/
def Sound (s : FileState) : Prop :=
  ∃ fs t, Stores s.disk fs t ∧ ∀ f, s.live = some f → f.tailVerified = true → t = []

theorem step_sound (s : FileState) (event : FileEvent) (assumed : EventAssumed warsaw s event)
    (sound : Sound s) :
    Sound (s.step warsaw event).1 ∧ ∀ w ∈ (s.step warsaw event).2, Appends w := by
  obtain ⟨fs, t, stores, verified⟩ := sound
  cases event with
  | queue d logName path log now =>
    refine ⟨⟨fs, t, stores, ?_⟩, fun _ member => (by cases member)⟩
    intro f live flag
    cases live
    rw [FileState.queue_tailVerified] at flag
    cases before : s.live with
    | none =>
      rw [before] at flag
      cases flag
    | some f =>
      rw [before] at flag
      exact verified f before flag
  | cleanUp now =>
    refine ⟨⟨fs, t, stores, ?_⟩, fun _ member => (by cases member)⟩
    intro f live flag
    exact verified f (Option.filter_eq_some_iff.mp live).1 flag
  | restart => exact ⟨⟨fs, t, stores, fun _ h => (by cases h)⟩, fun _ member => (by cases member)⟩
  | delete => exact ⟨⟨[], [], .absent, fun _ _ _ => rfl⟩, fun _ member => (by cases member)⟩
  | write d flushInterval env =>
    cases live : s.live with
    | none =>
      unfold FileState.step
      simp only [live]
      exact ⟨⟨fs, t, stores, fun f h => by rw [live] at h; cases h⟩, by simp⟩
    | some f =>
      rcases attempt_stores flushInterval (d.backlogNotice warsaw f env.utcNow) stores
          (verified f live) (assumed f live) with
        ⟨ops, result⟩ | ⟨error, result, gs, u, after⟩ | ⟨written, result, possible, after⟩
      · rw [FileState.step_write_ok live result]
        refine ⟨⟨fs, t, by rw [ops]; exact stores, ?_⟩, by simp⟩
        intro f' live' flag
        cases live'
        apply verified f live
        simpa only [LogFile.afterSkip, apply_ite LogFile.tailVerified, ite_self] using flag
      · rw [FileState.step_write_error live result]
        refine ⟨⟨gs, u, after, ?_⟩, by simp⟩
        intro f' live' flag
        cases live'
        cases flag
      · rw [FileState.step_write_ok live result]
        have complete := complete_snoc stores.complete possible
        have all := Stores.frames _ [] complete (Or.inl rfl)
        rw [List.append_nil, ← after] at all
        refine ⟨⟨_, [], all, fun _ _ _ => rfl⟩, ?_⟩
        intro w member
        simp only [Option.toList_some, List.map_cons, List.map_nil, List.mem_singleton] at member
        subst member
        exact ⟨fs, t, stores, complete, after⟩

/-- From a log file on, whatever happens: every attempt that succeeds leaves the magic, the
complete frames there were and the new one, and the flag is set only on a file that is
absent, empty or ends where a frame ends. -/
theorem file_stays_decodable (disk : Option Bytes) (fs : List Bytes) (t : Bytes)
    (stores : Stores disk fs t) (events : List FileEvent)
    (assumed : Machine.Allowed (FileState.step warsaw) (EventAssumed warsaw) (.start disk) events) :
    let final := Machine.run (FileState.step warsaw) (.start disk) events
    (∀ w ∈ final.2, Appends w) ∧
      ∀ f, final.1.live = some f → f.tailVerified = true → OnBoundary final.1.disk := by
  have invariant := Machine.run_invariant (fun s past => Sound s ∧ ∀ w ∈ past, Appends w)
    (fun s event past assumed inv => by
      obtain ⟨sound, appends⟩ := step_sound warsaw s event assumed inv.1
      refine ⟨sound, fun w member => ?_⟩
      rcases List.mem_append.mp member with old | new
      · exact inv.2 w old
      · exact appends w new)
    (.start disk) [] ⟨⟨fs, t, stores, fun _ h => (by cases h)⟩, by simp⟩ events assumed
  obtain ⟨⟨gs, u, after, verified⟩, appends⟩ := invariant
  refine ⟨appends, fun f live flag => ⟨gs, ?_⟩⟩
  rw [← verified f live flag]
  exact after

end Runs

/-- A file that ends inside a frame, through one failing and one successful attempt. -/
def tornFile : Option Bytes := some (MAGIC ++ ([].flatten ++ [0xff]))

def twoAttempts : List FileEvent :=
  [.queue (plainDefinition "") "a.log" "logs" "entry" 0,
   .write (plainDefinition "") 0 (storedEnv { allDone with payload := .failed .storageFull 2 }),
   .write (plainDefinition "") 0 (storedEnv allDone)]

/-- A short file and calls that succeed, with the stored compressor. -/
theorem assumed_of_done (f : LogFile) (notice : Option String) (io : WriteIo) (content : Option Bytes)
    (came : io.metadata = .ready (.ok ())) (magic : io.magic = .done)
    (small : content.elim 0 List.length ≤ 1000) : Assumed f notice (storedEnv io) content where
  metadata _ e failed := by cases came.symm.trans failed
  magic _ e k failed := by cases magic.symm.trans failed
  checked _ c is := by
    subst is
    exact Nat.le_trans small (by decide)
  fits _ encoded := storedDeflater_payload encoded

theorem file_stays_decodable_torn :
    OnBoundary (Machine.run (FileState.step warsawAtEpoch) (.start tornFile) twoAttempts).1.disk := by
  have torn : Torn PossibleFrame [0xff] :=
    ⟨by simp, [0, 0, 0xc5], by simp, 0, 0, [0xc5], [], rfl, by decide, .last 0xc5 rfl⟩
  have allowed : Machine.Allowed (FileState.step warsawAtEpoch) (EventAssumed warsawAtEpoch)
      (.start tornFile) twoAttempts :=
    ⟨trivial, fun f _ _ => assumed_of_done f _ _ _ rfl rfl (by decide +kernel),
      fun f _ _ => assumed_of_done f _ _ _ rfl rfl (by decide +kernel), trivial⟩
  exact (file_stays_decodable warsawAtEpoch tornFile [] [0xff]
    (.frames [] [0xff] (complete_nil _) (Or.inr torn)) twoAttempts allowed).2 _ rfl (by decide +kernel)

end OpLog.Guarantees.Recovery
