import OpLog.Source.Outcome
import OpLog.Source.Service

/-!
# One file among all

What each operation of the worker does to the `LogFile` under one key of one definition:
registering a definition leaves it, an entry routed to it is queued in it, clean-up may
forget it, and a pass makes one attempt on it. The orders in which a pass visits the files
no longer occur.
-/
namespace OpLog.Source
open Library

section Warsaw
variable (warsaw : DateTimeUtc → LocalDateTime)

namespace OpLogWorker

theorem file?_of_definition {w : OpLogWorker} {name : String} {d : LogDefinition} (key : String)
    (h : w.definitions.get? name = some d) : w.file? name key = d.files.get? key := by
  unfold file?
  rw [h, Option.bind_some]

theorem file?_of_none {w : OpLogWorker} {name : String} (key : String)
    (h : w.definitions.get? name = none) : w.file? name key = none := by
  unfold file?
  rw [h, Option.bind_none]

/-- A new definition has no files, a redefined one keeps its own. -/
@[simp] theorem file?_define (w : OpLogWorker) (d : OpLogDefinition) (now : Instant)
    (name key : String) : (w.define d now).file? name key = w.file? name key := by
  by_cases same : name = d.logName
  · subst same
    cases h : w.definitions.get? d.logName with
    | none =>
      rw [file?_of_none key h]
      unfold file? define
      simp only [h, KeyedMap.get?_insert_self, Option.bind_some, KeyedMap.get?_empty]
    | some old =>
      rw [file?_of_definition key h]
      unfold file? define
      simp only [h, KeyedMap.get?_insert_self, Option.bind_some]
  · unfold file? define
    simp only [KeyedMap.get?_insert_ne _ _ same]

/-- An entry whose name is registered goes to the file its definition routes it to. -/
theorem file?_log_stored {w : OpLogWorker} {data : OpLogData} {d : LogDefinition} (now : Instant)
    (stored : w.definitions.get? data.logName = some d) (name key : String) :
    let r := d.route data.logName (warsaw data.date) data.log
    (w.log warsaw data.logName data.date data.log now).file? name key =
      if name = data.logName ∧ key = r.key then
        some ((({ d with lastTimeUse := now } : LogDefinition).getLogFile (w.file? name key)
          r.logName r.path now).addToLog r.entry now)
      else w.file? name key := by
  intro r
  unfold file? log
  simp only [stored]
  by_cases hit : name = data.logName
  · subst hit
    unfold LogDefinition.addToLog
    simp only [KeyedMap.get?_insert_self, Option.bind_some, stored, true_and]
    by_cases file : key = r.key
    · subst file
      rw [if_pos rfl]
      exact KeyedMap.get?_insert_self _ _ _
    · rw [if_neg file]
      exact KeyedMap.get?_insert_ne _ _ file
  · rw [KeyedMap.get?_insert_ne _ _ hit, if_neg (fun h => hit h.1)]

theorem file?_log {w : OpLogWorker} {data : OpLogData} {r : Route} (now : Instant)
    (routed : w.routeOf warsaw data = some r) (name key : String) :
    ∃ d : LogDefinition, (w.log warsaw data.logName data.date data.log now).file? name key =
      if name = data.logName ∧ key = r.key then
        some ((d.getLogFile (w.file? name key) r.logName r.path now).addToLog r.entry now)
      else w.file? name key := by
  obtain ⟨d, stored, rfl⟩ := Option.map_eq_some_iff.mp routed
  exact ⟨_, file?_log_stored warsaw now stored name key⟩

/-- An entry whose name is not registered is discarded. -/
theorem log_unregistered {w : OpLogWorker} {data : OpLogData} (now : Instant)
    (unrouted : w.routeOf warsaw data = none) :
    w.log warsaw data.logName data.date data.log now = w := by
  unfold routeOf at unrouted
  rw [Option.map_eq_none_iff] at unrouted
  unfold log
  simp only [unrouted]

/-- Clean-up forgets a file only if the file itself is out of use: a definition goes only
when it has no files left. -/
theorem file?_cleanUp (w : OpLogWorker) (now : Instant) (name key : String) :
    (w.cleanUp now).file? name key = (w.file? name key).filter (·.inUse now) := by
  rw [file?, get?_cleanUp]
  cases h : w.definitions.get? name with
  | none => simp [file?_of_none key h]
  | some d =>
    rw [file?_of_definition key h, Option.map_some]
    by_cases used :
        ({ d with files := d.files.retain fun _ f => f.inUse now } : LogDefinition).inUse now
    · rw [Option.filter_some, if_pos used, Option.bind_some, KeyedMap.get?_retain]
    · rw [Option.filter_some, if_neg used, Option.bind_none]
      have retained := KeyedMap.get?_retain d.files (fun _ f => f.inUse now) key
      rw [← retained]
      symm
      have empty : (d.files.retain fun _ f => f.inUse now).entries = [] := by
        unfold LogDefinition.inUse at used
        simpa using (show _ ∧ _ ∧ _ by simpa using used).2.1
      rw [KeyedMap.get?_eq_none]
      intro v member
      rw [empty] at member
      cases member

end OpLogWorker

/-! ## Definitions -/

namespace OpLogWorker

theorem get?_define (w : OpLogWorker) (d : OpLogDefinition) (now : Instant) (name : String) :
    ∃ stored : LogDefinition, stored.autoRemoveDefinition = d.autoRemoveDefinition ∧
      stored.lastTimeUse = ((w.definitions.get? d.logName).elim now (·.lastTimeUse)) ∧
      (w.define d now).definitions.get? name =
        if name = d.logName then some stored else w.definitions.get? name := by
  unfold define
  simp only [KeyedMap.get?_insert]
  refine ⟨_, ?_, ?_, rfl⟩
  · cases w.definitions.get? d.logName <;> rfl
  · cases w.definitions.get? d.logName <;> rfl

/-- `log` notes the use of its definition and leaves the others. -/
theorem get?_log (w : OpLogWorker) (data : OpLogData) (now : Instant) (name : String) :
    (name ≠ data.logName ∨ w.definitions.get? name = none) ∧
      (w.log warsaw data.logName data.date data.log now).definitions.get? name =
        w.definitions.get? name ∨
    ∃ d d', name = data.logName ∧ w.definitions.get? name = some d ∧
      d'.lastTimeUse = now ∧ d'.autoRemoveDefinition = d.autoRemoveDefinition ∧
      (w.log warsaw data.logName data.date data.log now).definitions.get? name = some d' := by
  cases stored : w.definitions.get? data.logName with
  | none =>
    unfold log
    simp only [stored, and_true]
    by_cases hit : name = data.logName
    · exact Or.inl (Or.inr (hit ▸ stored))
    · exact Or.inl (Or.inl hit)
  | some d =>
    unfold log
    simp only [stored, KeyedMap.get?_insert]
    by_cases hit : name = data.logName
    · subst hit
      refine Or.inr ⟨d, _, rfl, stored, ?_, ?_, if_pos rfl⟩
      · rfl
      · rfl
    · exact Or.inl ⟨Or.inl hit, if_neg hit⟩

end OpLogWorker

/-! ## Passes -/

/-- The attempts of a pass on one file. -/
def PassAttempts.on (attempts : PassAttempts) (name key : String) : List Attempt :=
  (KeyedMap.outsOf name attempts).flatMap (KeyedMap.outsOf key)

/-- The disk as a pass over the files of a definition finds it at one of them. -/
def LogDefinition.diskAt (d : LogDefinition) (flushInterval : Duration) (env : String → AttemptEnv)
    (rank : String → Nat) (disk : Disk) (key : String) : Disk :=
  (d.files.reorder rank).visitState (fun key f disk =>
    let out := d.writeOne warsaw flushInterval (env key) f (disk f.diskPath)
    (out.1, disk.set f.diskPath (applyOps out.2.ops (disk f.diskPath)), out.2)) disk key

/-- The content on which a pass makes its attempt on a file. -/
def OpLogWorker.contentAt (w : OpLogWorker) (interval : LogDefinition → Duration) (env : PassEnv)
    (disk : Disk) (name key : String) : Option Bytes :=
  match w.definitions.get? name, w.file? name key with
  | some d, some f =>
    let disk := (w.definitions.reorder env.definitionRank).visitState (fun name d disk =>
      d.writeToFile warsaw (interval d) (env.attempt name) (env.fileRank name) disk) disk name
    d.diskAt warsaw (interval d) (env.attempt name) (env.fileRank name) disk key f.diskPath
  | _, _ => none

/-- A pass leaves the files there are, and makes one attempt on each. -/
theorem OpLogWorker.file?_writePass (w : OpLogWorker) (interval : LogDefinition → Duration)
    (env : PassEnv) (disk : Disk) (name key : String) :
    let out := w.writePass warsaw interval env disk
    match w.file? name key with
    | none => out.1.file? name key = none ∧ out.2.2.on name key = []
    | some f => ∃ d content, w.definitions.get? name = some d ∧
        content = w.contentAt warsaw interval env disk name key ∧
        out.1.file? name key =
          some (d.writeOne warsaw (interval d) (env.attempt name key) f content).1 ∧
        out.2.2.on name key = [(d.writeOne warsaw (interval d) (env.attempt name key) f content).2] := by
  intro out
  have definitions := w.definitions.get?_visit env.definitionRank
    (fun name d disk => d.writeToFile warsaw (interval d) (env.attempt name) (env.fileRank name) disk)
    disk name
  cases h : w.definitions.get? name with
  | none =>
    rw [h] at definitions
    rw [file?_of_none key h]
    exact ⟨file?_of_none key definitions.1,
      congrArg (List.flatMap (KeyedMap.outsOf key)) definitions.2⟩
  | some d =>
    rw [h] at definitions
    obtain ⟨stored, outs⟩ := definitions
    have files (disk : Disk) := d.files.get?_visit (env.fileRank name)
      (fun key f disk =>
        let out := d.writeOne warsaw (interval d) (env.attempt name key) f (disk f.diskPath)
        (out.1, disk.set f.diskPath (applyOps out.2.ops (disk f.diskPath)), out.2)) disk key
    have live : out.1.file? name key = _ := file?_of_definition key stored
    have attempts : out.2.2.on name key = _ := congrArg (List.flatMap (KeyedMap.outsOf key)) outs
    rw [List.flatMap_cons, List.flatMap_nil, List.append_nil] at attempts
    rw [live, attempts, file?_of_definition key h]
    cases here : d.files.get? key with
    | none =>
      simp only [here] at files
      exact files _
    | some f =>
      simp only [here] at files
      obtain ⟨stored', outs'⟩ := files _
      refine ⟨d, _, rfl, ?_, stored', outs'⟩
      unfold contentAt LogDefinition.diskAt
      rw [file?_of_definition key h, h, here]

/-- A pass changes nothing of a definition but its files. -/
theorem OpLogWorker.get?_writePass (w : OpLogWorker) (interval : LogDefinition → Duration)
    (env : PassEnv) (disk : Disk) (name : String) :
    match w.definitions.get? name with
    | none => (w.writePass warsaw interval env disk).1.definitions.get? name = none
    | some d => ∃ files, (w.writePass warsaw interval env disk).1.definitions.get? name =
        some { d with files } := by
  have definitions := w.definitions.get?_visit env.definitionRank
    (fun name d disk => d.writeToFile warsaw (interval d) (env.attempt name) (env.fileRank name) disk)
    disk name
  cases h : w.definitions.get? name with
  | none =>
    rw [h] at definitions
    exact definitions.1
  | some d =>
    rw [h] at definitions
    exact ⟨_, definitions.1⟩

/-- The rule of the flush loop: what every pass keeps, its attempts included in the
history, the whole flush keeps. -/
theorem OpLogWorker.flushLoop_invariant (Inv : OpLogWorker → List Output → Prop) (env : Nat → PassEnv)
    (kept : ∀ n w past disk, Inv w past →
      let out := w.writePass warsaw (fun _ => Duration.fromMillis 0) (env n) disk
      Inv out.1 (past ++ [.pass out.2.2]))
    (left n : Nat) (w : OpLogWorker) (past : List Output) (disk : Disk) (start : Inv w past) :
    Inv (flushLoop warsaw env left n w disk).1
      (past ++ (flushLoop warsaw env left n w disk).2.2.map .pass) := by
  have first := kept n w past disk start
  induction left generalizing n w past disk with
  | zero => exact first
  | succ left ih =>
    unfold flushLoop
    generalize w.writePass warsaw (fun _ => Duration.fromMillis 0) (env n) disk = out at first ⊢
    obtain ⟨w', disk', attempts⟩ := out
    dsimp only at first ⊢
    split
    · exact first
    · have rest := ih (n + 1) w' (past ++ [.pass attempts]) disk' first (kept _ _ _ _ first)
      rwa [List.append_assoc] at rest

end Warsaw
end OpLog.Source
