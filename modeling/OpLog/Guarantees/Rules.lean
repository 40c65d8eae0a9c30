import OpLog.Guarantees.OneFile
import OpLog.Source.PerFile

/-!
# Does an updated cleanup rule govern its path?

`clean_up_definition` rewrites the first rule for its path. That is the only one as long as
no bundle lists a path twice; behind such a bundle the rules after the first keep their days,
and every pass goes on deleting by them.
-/
namespace OpLog.Guarantees.Rules
open Library Source

/-- Every rule for the path of `d` has the days of `d`. -/
def Governs (w : OpLogWorker) (d : OpLogCleanUpDefinition) : Prop :=
  ∀ rule ∈ w.cleanUpDefinitions, rule.path = d.path → rule.deleteAfterDays = d.deleteAfterDays

/-- The rules for a path, in order. -/
def rulesFor (path : String) (rules : List OpLogCleanUpDefinition) : List OpLogCleanUpDefinition :=
  rules.filter (·.path = path)

/-- The days of the rules for a path. -/
def daysFor (path : String) (rules : List OpLogCleanUpDefinition) : List Nat :=
  (rulesFor path rules).map (·.deleteAfterDays)

theorem governs_iff_daysFor (w : OpLogWorker) (d : OpLogCleanUpDefinition) :
    Governs w d ↔ ∀ days ∈ daysFor d.path w.cleanUpDefinitions, days = d.deleteAfterDays := by
  unfold Governs daysFor rulesFor
  simp only [List.mem_map, List.mem_filter, decide_eq_true_eq]
  constructor
  · intro governs days listed
    obtain ⟨rule, ⟨member, path⟩, rfl⟩ := listed
    exact governs rule member path
  · intro governs rule member path
    exact governs _ ⟨rule, ⟨member, path⟩, rfl⟩

/-- An update puts the new days in front of those of the rules after the first. -/
theorem daysFor_updateRule (d : OpLogCleanUpDefinition) (rules : List OpLogCleanUpDefinition) :
    daysFor d.path (OpLogWorker.updateRule d rules) =
      d.deleteAfterDays :: (daysFor d.path rules).tail := by
  induction rules with
  | nil => simp [OpLogWorker.updateRule, daysFor, rulesFor]
  | cons rule rules ih =>
    unfold OpLogWorker.updateRule
    by_cases here : rule.path = d.path
    · simp [here, daysFor, rulesFor]
    · rw [if_neg here]
      unfold daysFor rulesFor at ih ⊢
      simp only [List.filter_cons, here, decide_false]
      exact ih

/-- An update leaves the rules for every other path. -/
theorem daysFor_updateRule_ne (d : OpLogCleanUpDefinition) {path : String} (other : path ≠ d.path)
    (rules : List OpLogCleanUpDefinition) :
    daysFor path (OpLogWorker.updateRule d rules) = daysFor path rules := by
  induction rules with
  | nil => simp [OpLogWorker.updateRule, daysFor, rulesFor, Ne.symm other]
  | cons rule rules ih =>
    unfold OpLogWorker.updateRule
    by_cases here : rule.path = d.path
    · simp [here, daysFor, rulesFor, Ne.symm other]
    · rw [if_neg here]
      unfold daysFor rulesFor at ih ⊢
      simp only [List.filter_cons]
      split
      · rw [List.map_cons, List.map_cons, ih]
      · exact ih

/-! ## Along a run -/

/-- What an event makes of the rules. -/
def rulesAfter (rules : List OpLogCleanUpDefinition) : Event → List OpLogCleanUpDefinition
  | .message _ .cleanUpRemoveAllDefinitions => []
  | .message _ (.cleanUpBundle bundle) => bundle
  | .message _ (.cleanUpDefinition d) => OpLogWorker.updateRule d rules
  | _ => rules

section Warsaw
variable (warsaw : DateTimeUtc → LocalDateTime)

theorem rules_define_all (definitions : List OpLogDefinition) (now : Instant) (w : OpLogWorker) :
    (definitions.foldl (fun w d => w.define d now) w).cleanUpDefinitions = w.cleanUpDefinitions := by
  induction definitions generalizing w with
  | nil => rfl
  | cons d definitions ih => exact ih (w.define d now)

theorem rules_log (w : OpLogWorker) (data : OpLogData) (now : Instant) :
    (w.log warsaw data.logName data.date data.log now).cleanUpDefinitions = w.cleanUpDefinitions := by
  unfold OpLogWorker.log
  split <;> rfl

theorem rules_processLogs (w : OpLogWorker) (now : Instant) (logs : List OpLogData) :
    (w.processLogs warsaw now logs).1.cleanUpDefinitions = w.cleanUpDefinitions := by
  induction logs generalizing w with
  | nil => rfl
  | cons data logs ih => exact (ih _).trans (rules_log warsaw w data now)

theorem rules_flush (s : World) (env : OpLogWorker.FlushEnv) :
    (s.flush warsaw env).1.worker.cleanUpDefinitions = s.worker.cleanUpDefinitions :=
  OpLogWorker.flushLoop_invariant warsaw
    (fun w _ => w.cleanUpDefinitions = s.worker.cleanUpDefinitions) env.pass
    (fun _ _ _ _ same => same) env.deadline 0 s.worker [] s.disk rfl

/-- Only the three operations on the rules change them. -/
theorem rules_step (s : World) (event : Event) :
    (s.step warsaw event).1.worker.cleanUpDefinitions =
      rulesAfter s.worker.cleanUpDefinitions event := by
  cases event with
  | writerTick env => rfl
  | cleanupTick now deleted completed =>
    obtain ⟨timedOut, noted⟩ := (s.worker.cleanUp now).noteCleanupOutcome_eq completed
    unfold World.step World.cleanup
    dsimp only
    rw [noted]
    rfl
  | message env msg =>
    cases msg with
    | flush => exact rules_flush warsaw s env.flush
    | getInfoAndFlush => exact rules_flush warsaw s env.flush
    | logBundle bundle =>
      exact (rules_processLogs warsaw _ env.now bundle.logs).trans
        (rules_define_all bundle.definitions env.now s.worker)
    | log data => exact rules_log warsaw s.worker data env.now
    | _ => rfl

/-! ## While no bundle repeats a path -/

/-- No path is listed twice. -/
def Distinct (rules : List OpLogCleanUpDefinition) : Prop :=
  ∀ path, (daysFor path rules).length ≤ 1

/-- The bundle of the event, if it brings one, lists no path twice. -/
def DistinctBundle : Event → Prop
  | .message _ (.cleanUpBundle bundle) => Distinct bundle
  | _ => True

theorem updateRule_distinct (d : OpLogCleanUpDefinition) {rules : List OpLogCleanUpDefinition}
    (distinct : Distinct rules) : Distinct (OpLogWorker.updateRule d rules) := by
  intro path
  have few := distinct path
  by_cases here : path = d.path
  · subst here
    rw [daysFor_updateRule, List.length_cons, List.length_tail]
    omega
  · rwa [daysFor_updateRule_ne d here]

theorem rulesAfter_distinct {rules : List OpLogCleanUpDefinition} {event : Event}
    (bundle : DistinctBundle event) (distinct : Distinct rules) :
    Distinct (rulesAfter rules event) := by
  unfold rulesAfter
  split
  · intro path
    exact Nat.zero_le 1
  · exact bundle
  · exact updateRule_distinct _ distinct
  · exact distinct

/-- Rules that come in one by one, or in bundles without repetitions, are one for each path. -/
theorem run_distinct (disk : Disk) (events : List Event)
    (bundles : ∀ event ∈ events, DistinctBundle event) :
    Distinct (Machine.run (World.step warsaw) ⟨.new, disk⟩ events).1.worker.cleanUpDefinitions := by
  have start : Distinct OpLogWorker.new.cleanUpDefinitions := fun _ => Nat.zero_le 1
  have kept (s : World) (event : Event) (bundle : DistinctBundle event)
      (distinct : Distinct s.worker.cleanUpDefinitions) :
      Distinct (s.step warsaw event).1.worker.cleanUpDefinitions := by
    rw [rules_step]
    exact rulesAfter_distinct bundle distinct
  exact Machine.run_state_invariant (fun s : World => Distinct s.worker.cleanUpDefinitions) kept
    ⟨.new, disk⟩ start events
    (Machine.allowed_of_forall _ _ fun event member _ => bundles event member)

end Warsaw

/-- After any events, an update governs its path exactly if the rules for the path that
stand behind the first one have its days already. -/
theorem update_governs_iff (warsaw : DateTimeUtc → LocalDateTime) (disk : Disk)
    (events : List Event) (env : MessageEnv) (d : OpLogCleanUpDefinition) :
    let s := (Machine.run (World.step warsaw) ⟨.new, disk⟩ events).1
    Governs (s.step warsaw (.message env (.cleanUpDefinition d))).1.worker d ↔
      ∀ rule ∈ (rulesFor d.path s.worker.cleanUpDefinitions).tail,
        rule.deleteAfterDays = d.deleteAfterDays := by
  intro s
  rw [governs_iff_daysFor, rules_step]
  simp only [rulesAfter]
  rw [daysFor_updateRule]
  unfold daysFor
  rw [← List.map_tail]
  simp only [List.mem_cons, forall_eq_or_imp, true_and, List.mem_map]
  constructor
  · intro governs rule listed
    exact governs _ ⟨rule, listed, rfl⟩
  · intro governs days listed
    obtain ⟨rule, behind, rfl⟩ := listed
    exact governs rule behind

/-- In particular where no bundle lists a path twice. -/
theorem distinct_bundles_govern (warsaw : DateTimeUtc → LocalDateTime) (disk : Disk)
    (events : List Event) (bundles : ∀ event ∈ events, DistinctBundle event) (env : MessageEnv)
    (d : OpLogCleanUpDefinition) :
    let s := (Machine.run (World.step warsaw) ⟨.new, disk⟩ events).1
    Governs (s.step warsaw (.message env (.cleanUpDefinition d))).1.worker d := by
  intro s
  have few : (daysFor d.path s.worker.cleanUpDefinitions).length ≤ 1 :=
    run_distinct warsaw disk events bundles d.path
  rw [governs_iff_daysFor, rules_step]
  simp only [rulesAfter]
  intro days listed
  rw [daysFor_updateRule, List.mem_cons] at listed
  rcases listed with rfl | behind
  · rfl
  · have none_behind : (daysFor d.path s.worker.cleanUpDefinitions).tail = [] := by
      apply List.eq_nil_of_length_eq_zero
      rw [List.length_tail]
      omega
    rw [none_behind] at behind
    cases behind

/-- A bundle that lists one path twice. -/
def twice : List Event :=
  [.message ⟨0, ⟨fun _ => passEnv (storedEnv allDone), 0⟩⟩ (.cleanUpBundle [⟨"logs", 30⟩, ⟨"logs", 7⟩])]

/-- Deletion under the path is switched off, and the second rule goes on deleting there. -/
theorem second_rule_stays :
    let s := (Machine.run (World.step warsawAtEpoch) ⟨.new, fun _ => none⟩ twice).1
    ¬ Governs (s.step warsawAtEpoch
      (.message ⟨0, ⟨fun _ => passEnv (storedEnv allDone), 0⟩⟩ (.cleanUpDefinition ⟨"logs", 0⟩))).1.worker
      ⟨"logs", 0⟩ := by
  intro s governs
  have stays := governs ⟨"logs", 7⟩ (by decide +kernel) rfl
  cases stays

end OpLog.Guarantees.Rules
