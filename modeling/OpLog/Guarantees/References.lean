import OpLog.Guarantees.Instances

/-!
# References and counts

The strong count of an instance follows the references to it, whatever happens: no event of the
process makes the two differ, and an instance that nothing refers to is not called and not
referred to again.
-/
namespace OpLog.Guarantees.Instances
open Library Source

section Warsaw
variable (warsaw : DateTimeUtc → LocalDateTime)

/-- Whatever happened, no reference came or went. -/
structure Frame (p p' : Process) : Prop where
  handles : p'.handles = p.handles
  logger : p'.logger = p.logger
  strongs : p'.instances.map (·.strong) = p.instances.map (·.strong)

theorem Frame.trans {p p' p'' : Process} (first : Frame p p') (second : Frame p' p'') : Frame p p'' :=
  ⟨second.handles.trans first.handles, second.logger.trans first.logger,
    second.strongs.trans first.strongs⟩

theorem Called.frame {p p' : Process} {out : List ProcessOutput} (called : Called p p' out) :
    Frame p p' := by
  refine ⟨called.handles, called.logger, ?_⟩
  apply List.ext_getElem?
  intro j
  rw [List.getElem?_map, List.getElem?_map]
  cases there : p.instances[j]? with
  | none =>
    have bound := List.getElem?_eq_none_iff.mp there
    rw [← called.length] at bound
    rw [List.getElem?_eq_none_iff.mpr bound]
  | some inst =>
    obtain ⟨inner, there', -⟩ := called.queues j inst there
    rw [there']
    rfl

theorem frame_modify (p : Process) (disk : Disk) (i : Nat) (f : Instance → Instance)
    (same : ∀ inst, (f inst).strong = inst.strong) : Frame p ({ p with disk }.modify i f) := by
  refine ⟨rfl, rfl, ?_⟩
  apply List.ext_getElem?
  intro j
  rw [List.getElem?_map, List.getElem?_map, get?_modify, Option.map_map]
  congr 1
  funext inst
  dsimp only [Function.comp]
  split
  · exact same inst
  · rfl

theorem frame_task (p : Process) (i : Nat) (inst : Instance) (event : TaskEvent) :
    Frame p (p.task warsaw i inst event).1 := by
  have idle : Frame p p := (called_refl p).frame
  have worked (p : Process) (event : Event) : Frame p (p.work warsaw i inst event).1 :=
    frame_modify p _ i _ fun _ => rfl
  cases event with
  | writerTick env =>
    unfold Process.task
    dsimp only
    split
    · exact worked p _
    · exact idle
  | cleanupTick now deleted completed lines =>
    unfold Process.task
    dsimp only
    split
    · have reported := (called_report p lines).frame
      exact reported.trans (worked (p.report lines).1 (.cleanupTick now deleted completed))
    · exact idle
  | recv env utcNow =>
    unfold Process.task Process.recv
    dsimp only
    split
    · split
      · split
        · exact frame_modify p p.disk i _ fun _ => rfl
        · exact idle
      · exact frame_modify p p.disk i _ fun _ => rfl
      · rename_i msg tx going isNext
        let p' := p.modify i fun inst => { inst with inner.tx := tx }
        have popped : Frame p p' := frame_modify p p.disk i _ fun _ => rfl
        have reported := (called_report p' (Process.flushLines utcNow msg)).frame
        exact popped.trans (reported.trans (worked _ (.message env msg)))
    · exact idle
  | lastFlush env utcNow =>
    unfold Process.task
    dsimp only
    split
    · refine (called_report p [(utcNow, "flush()")]).frame.trans ?_
      exact frame_modify _ _ i (fun inst => _) fun _ => rfl
    · exact idle

/-- A process with these handles and this logger in place of its own. -/
def referring (p : Process) (handles : List (Option Nat)) (logger : Option Logger) : Process :=
  { p with handles, logger }

theorem references_push (p : Process) (i j : Nat) :
    references (referring p (p.handles ++ [some i]) p.logger) j =
      if i = j then references p j + 1 else references p j := by
  unfold references referring
  rw [List.count_append, List.count_singleton]
  simp only [beq_iff_eq, Option.some.injEq]
  split <;> omega

theorem references_drop {p : Process} {handle i : Nat} (held : p.held handle = some i) (j : Nat) :
    references (referring p (p.handles.set handle none) p.logger) j =
      if i = j then references p j - 1 else references p j := by
  have some_left := held_count held
  unfold Process.held at held
  unfold references referring
  obtain ⟨bound, slot⟩ : ∃ bound : handle < p.handles.length, p.handles[handle] = some i := by
    cases there : p.handles[handle]? with
    | none =>
      rw [there] at held
      cases held
    | some slot =>
      rw [there] at held
      obtain ⟨bound, same⟩ := List.getElem?_eq_some_iff.mp there
      exact ⟨bound, same.trans held⟩
  rw [List.count_set bound, slot]
  simp only [beq_iff_eq, Option.some.injEq, reduceCtorEq, if_false]
  split
  · rename_i same
    subst same
    omega
  · omega

theorem references_logger {p : Process} {logger : OpLogSystemLogger} (unset : p.logger = none)
    (j : Nat) :
    references (referring p p.handles (some (.opLog logger))) j =
      if logger.inner = j then references p j + 1 else references p j := by
  unfold references referring holds
  rw [unset]
  simp only [decide_eq_true_eq, Bool.false_eq_true, if_false, Nat.add_zero]
  split <;> rfl

theorem Frame.references {p p' : Process} (frame : Frame p p') (j : Nat) :
    references p' j = references p j := by
  unfold Instances.references
  rw [frame.handles, frame.logger]

theorem Frame.length {p p' : Process} (frame : Frame p p') :
    p'.instances.length = p.instances.length := by
  have same := congrArg List.length frame.strongs
  rwa [List.length_map, List.length_map] at same

theorem Frame.counted {p p' : Process} (frame : Frame p p') (counted : Counted p) : Counted p' := by
  constructor
  · intro j inst there
    have same := congrArg (·[j]?) frame.strongs
    simp only [List.getElem?_map, there, Option.map_some] at same
    obtain ⟨old, before, strong⟩ := Option.map_eq_some_iff.mp same.symm
    rw [← strong, frame.references]
    exact counted.counts j old before
  · intro j beyond
    rw [frame.references]
    exact counted.named j (frame.length ▸ beyond)

theorem Counted.bound {p : Process} (counted : Counted p) {i : Nat} (referenced : 0 < references p i) :
    i < p.instances.length := by
  by_contra beyond
  have none := counted.named i (Nat.le_of_not_lt beyond)
  omega

/-- A count that follows the references to its instance. -/
theorem counted_modify {p p' : Process} (counted : Counted p) {i : Nat} (f : Nat → Nat)
    (bound : i < p.instances.length)
    (instances : p'.instances = (p.modify i fun inst => { inst with strong := f inst.strong }).instances)
    (follows : ∀ j, references p' j = if i = j then f (references p j) else references p j) :
    Counted p' := by
  constructor
  · intro j inst there
    rw [instances, get?_modify] at there
    obtain ⟨old, before, rfl⟩ := Option.map_eq_some_iff.mp there
    have strong := counted.counts j old before
    rw [follows]
    split
    · exact congrArg f strong
    · exact strong
  · intro j beyond
    have length : p'.instances.length = p.instances.length := by
      rw [instances, Process.modify, List.length_modify]
    have other : i ≠ j := by omega
    rw [follows, if_neg other]
    exact counted.named j (length ▸ beyond)

theorem counted_made {p : Process} (counted : Counted p) :
    Counted { p with
      instances := p.instances ++ [⟨1, ⟨.empty, true, 0⟩, .running, .new⟩]
      handles := p.handles ++ [some p.instances.length] } := by
  have fresh := references_push p p.instances.length
  constructor
  · intro j inst there
    refine Eq.trans ?_ (fresh j).symm
    by_cases old : j < p.instances.length
    · rw [List.getElem?_append_left old] at there
      rw [counted.counts j inst there, if_neg (by omega)]
    · rw [List.getElem?_append_right (Nat.le_of_not_lt old), List.getElem?_singleton] at there
      split at there
      · cases there
        rw [counted.named j (Nat.le_of_not_lt old), if_pos (by omega)]
      · cases there
  · intro j beyond
    rw [List.length_append, List.length_singleton] at beyond
    refine (fresh j).trans ?_
    rw [counted.named j (by omega), if_neg (by omega)]

theorem step_counted (p : Process) (event : ProcessEvent) (counted : Counted p) :
    Counted (p.step warsaw event).1 := by
  have effect := step_effect warsaw p event
  generalize (p.step warsaw event).1 = p', (p.step warsaw event).2 = out at effect
  cases effect with
  | called _ _ called => exact called.frame.counted counted
  | made => exact counted_made counted
  | cloned handle i held =>
    have bound := counted.bound (held_referenced held)
    exact counted_modify counted (· + 1) bound rfl (references_push p i)
  | dropped handle i held =>
    have bound := counted.bound (held_referenced held)
    exact counted_modify counted (· - 1) bound rfl (references_drop held)
  | installed handle i name p' out held unset called =>
    have counted' := called.frame.counted counted
    have bound := counted'.bound (called.references i ▸ held_referenced held)
    exact counted_modify counted' (· + 1) bound rfl (references_logger unset)
  | taken unset =>
    have same (j : Nat) : references { p with logger := some .foreign } j = references p j := by
      unfold references
      rw [unset]
      rfl
    exact ⟨fun j inst there => (counted.counts j inst there).trans (same j).symm,
      fun j beyond => (same j).trans (counted.named j beyond)⟩
  | worked i inst task own isTask => exact (frame_task warsaw p i inst task).counted counted

/-! ## Outputs of a step -/

/-- Outputs about instances that are there, none of them accepted by one nothing refers to. -/
structure Fits (p : Process) (out : List ProcessOutput) : Prop where
  known : ∀ o ∈ out, about o < p.instances.length
  silent : ∀ j, references p j = 0 → acceptedBy j out = []

theorem fits_nil (p : Process) : Fits p [] where
  known o member := by cases member
  silent _ _ := rfl

theorem Fits.append {p p' : Process} {out out' : List ProcessOutput} (frame : Frame p p')
    (first : Fits p out) (second : Fits p' out') : Fits p (out ++ out') := by
  constructor
  · intro o member
    rcases List.mem_append.mp member with earlier | later
    · exact first.known o earlier
    · exact frame.length ▸ second.known o later
  · intro j none
    rw [acceptedBy_append, first.silent j none, second.silent j ((frame.references j).trans none),
      List.append_nil]

theorem Called.fits {p p' : Process} {out : List ProcessOutput} (called : Called p p' out) :
    Fits p out := ⟨called.known, fun _ none => called.silent none⟩

theorem fits_own {p : Process} {i : Nat} {inst : Instance} (own : p.instances[i]? = some inst)
    {o : ProcessOutput} (mine : about o = i) (quiet : ∀ j, acceptedBy j [o] = []) : Fits p [o] := by
  refine ⟨fun o' member => ?_, fun j _ => quiet j⟩
  rw [List.mem_singleton.mp member, mine]
  exact (List.getElem?_eq_some_iff.mp own).1

theorem fits_task {p : Process} {i : Nat} {inst : Instance} (own : p.instances[i]? = some inst)
    (event : TaskEvent) : Fits p (p.task warsaw i inst event).2 := by
  have worked (outputs : List Output) : Fits p [.out i outputs] := fits_own own rfl fun _ => rfl
  have reported (lines : List (DateTimeUtc × String)) (outputs : List Output) :
      Fits p ((p.report lines).2 ++ [.out i outputs]) := by
    refine Fits.append (called_refl p).frame (called_report p lines).fits (worked outputs)
  cases event with
  | writerTick env =>
    unfold Process.task
    dsimp only
    split
    · exact worked _
    · exact fits_nil p
  | cleanupTick now deleted completed lines =>
    unfold Process.task
    dsimp only
    split
    · exact reported lines _
    · exact fits_nil p
  | recv env utcNow =>
    unfold Process.task Process.recv
    dsimp only
    split
    · split
      · split
        · exact fits_own own rfl fun _ => rfl
        · exact fits_nil p
      · exact fits_own own rfl fun _ => rfl
      · rename_i msg tx going isNext
        let p' := p.modify i fun inst => { inst with inner.tx := tx }
        have popped : Frame p p' := frame_modify p p.disk i _ fun _ => rfl
        have called := called_report p' (Process.flushLines utcNow msg)
        have received : Fits p [.received i msg] := fits_own own rfl fun _ => rfl
        have lines := Fits.append popped received called.fits
        exact Fits.append (called_refl p).frame lines (worked _)
    · exact fits_nil p
  | lastFlush env utcNow =>
    unfold Process.task Process.lastFlush
    dsimp only
    split
    · exact reported [(utcNow, "flush()")] _
    · exact fits_nil p

theorem step_fits (p : Process) (event : ProcessEvent) : Fits p (p.step warsaw event).2 := by
  have effect := step_effect warsaw p event
  generalize (p.step warsaw event).1 = p', (p.step warsaw event).2 = out at effect
  cases effect with
  | called _ _ called => exact called.fits
  | installed handle i name p' out held unset called => exact called.fits
  | worked i inst task own isTask => exact fits_task warsaw own task
  | _ => exact fits_nil p

/-- What nothing refers to is not referred to again. -/
theorem step_unreferenced (p : Process) (event : ProcessEvent) {j : Nat}
    (there : j < p.instances.length) (none : references p j = 0) :
    references (p.step warsaw event).1 j = 0 := by
  have effect := step_effect warsaw p event
  generalize (p.step warsaw event).1 = p', (p.step warsaw event).2 = out at effect
  have other {handle i : Nat} (held : p.held handle = some i) : i ≠ j := by
    have referenced := held_referenced held
    rintro rfl
    omega
  cases effect with
  | called _ _ called => exact (called.references j).trans none
  | made =>
    refine (references_push p p.instances.length j).trans ?_
    rw [if_neg (by omega), none]
  | cloned handle i held =>
    refine (references_push p i j).trans ?_
    rw [if_neg (other held), none]
  | dropped handle i held =>
    refine (references_drop held j).trans ?_
    rw [if_neg (other held), none]
  | installed handle i name p' out held unset called =>
    refine (references_logger unset j).trans ?_
    rw [if_neg (other held), called.references, none]
  | taken unset =>
    refine Eq.trans ?_ none
    unfold references
    rw [unset]
    rfl
  | worked i inst task own isTask => exact ((frame_task warsaw p i inst task).references j).trans none

/-- No instance goes away, and one that was not there is new. -/
theorem step_length (p : Process) (event : ProcessEvent) :
    p.instances.length ≤ (p.step warsaw event).1.instances.length ∧
      ∀ j inst, p.instances.length ≤ j → (p.step warsaw event).1.instances[j]? = some inst →
        inst = ⟨1, ⟨.empty, true, 0⟩, .running, .new⟩ := by
  have effect := step_effect warsaw p event
  generalize (p.step warsaw event).1 = p', (p.step warsaw event).2 = out at effect
  have same {p' : Process} (length : p'.instances.length = p.instances.length) :
      p.instances.length ≤ p'.instances.length ∧
        ∀ j inst, p.instances.length ≤ j → p'.instances[j]? = some inst →
          inst = ⟨1, ⟨.empty, true, 0⟩, .running, .new⟩ := by
    refine ⟨Nat.le_of_eq length.symm, fun j inst beyond there => ?_⟩
    rw [List.getElem?_eq_none (length ▸ beyond)] at there
    cases there
  cases effect with
  | called _ _ called => exact same called.length
  | made =>
    refine ⟨by simp, fun j inst beyond there => ?_⟩
    rw [List.getElem?_append_right beyond, List.getElem?_singleton] at there
    split at there
    · exact (Option.some.inj there).symm
    · cases there
  | cloned handle i held => exact same (List.length_modify _ _ _)
  | dropped handle i held => exact same (List.length_modify _ _ _)
  | installed handle i name p' out held unset called =>
    exact same ((List.length_modify _ _ _).trans called.length)
  | taken unset => exact same rfl
  | worked i inst task own isTask => exact same (frame_task warsaw p i inst task).length

variable {warsaw}

/-- A logger that is set stays. -/
theorem step_logger {p : Process} {logger : Logger} (event : ProcessEvent)
    (set : p.logger = some logger) : (p.step warsaw event).1.logger = some logger := by
  have effect := step_effect warsaw p event
  generalize (p.step warsaw event).1 = p', (p.step warsaw event).2 = out at effect
  cases effect with
  | called _ _ called => exact called.logger.trans set
  | made => exact set
  | cloned handle i held => exact set
  | dropped handle i held => exact set
  | installed handle i name p' out held unset called =>
    rw [called.logger, set] at unset
    cases unset
  | taken unset =>
    rw [set] at unset
    cases unset
  | worked i inst task own isTask => exact (frame_task warsaw p i inst task).logger.trans set

variable (warsaw) in
theorem run_logger {p : Process} {logger : Logger} (events : List ProcessEvent)
    (set : p.logger = some logger) :
    (Machine.run (Process.step warsaw) p events).1.logger = some logger := by
  induction events generalizing p with
  | nil => exact set
  | cons event events ih => exact ih (step_logger event set)

end Warsaw
end OpLog.Guarantees.Instances
