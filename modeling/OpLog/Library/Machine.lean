/-!
# Machines that run on a list of inputs

A machine answers every input with a next state and a list of outputs; a run is the
list of its inputs, and its history the outputs in order. Invariants tie the state to
the history so far. `Allowed` restricts a run to inputs that a guard admits in the
state they arrive in.
-/
namespace OpLog.Library.Machine

variable {σ ε ω : Type}

def run (step : σ → ε → σ × List ω) : σ → List ε → σ × List ω
  | s, [] => (s, [])
  | s, e :: es =>
    let (s', out) := step s e
    let (s'', outs) := run step s' es
    (s'', out ++ outs)

/-- Every input is admitted by the guard in the state it arrives in. -/
def Allowed (step : σ → ε → σ × List ω) (guard : σ → ε → Prop) : σ → List ε → Prop
  | _, [] => True
  | s, e :: es => guard s e ∧ Allowed step guard (step s e).1 es

variable {step : σ → ε → σ × List ω} {guard : σ → ε → Prop}

@[simp] theorem run_nil (s : σ) : run step s [] = (s, []) := rfl

theorem run_cons (s : σ) (e : ε) (es : List ε) :
    run step s (e :: es) =
      ((run step (step s e).1 es).1, (step s e).2 ++ (run step (step s e).1 es).2) := rfl

theorem run_append (s : σ) (es fs : List ε) :
    run step s (es ++ fs) =
      ((run step (run step s es).1 fs).1,
        (run step s es).2 ++ (run step (run step s es).1 fs).2) := by
  induction es generalizing s with
  | nil => rfl
  | cons e es ih => simp only [List.cons_append, run_cons, ih, List.append_assoc]

/-- Two machines that do the same with every input of a run. -/
theorem run_congr {step' : σ → ε → σ × List ω} (s : σ) (es : List ε)
    (same : ∀ e ∈ es, ∀ s, step s e = step' s e) : run step s es = run step' s es := by
  induction es generalizing s with
  | nil => rfl
  | cons e es ih =>
    have rest := fun s => ih s fun e' member => same e' (List.mem_cons_of_mem _ member)
    rw [run_cons, run_cons, same e List.mem_cons_self, rest]

/-- A machine that carries another one along, next to what it keeps itself. -/
theorem run_carries {τ : Type} {carried : τ → ε → τ × List ω} (part : σ → τ)
    (same : ∀ s e, part (step s e).1 = (carried (part s) e).1) (s : σ) (es : List ε) :
    part (run step s es).1 = (run carried (part s) es).1 := by
  induction es generalizing s with
  | nil => rfl
  | cons e es ih => rw [run_cons, run_cons, ih, same]

theorem Allowed.mono {guard' : σ → ε → Prop} {s : σ} {es : List ε} (allowed : Allowed step guard s es)
    (implies : ∀ s e, guard s e → guard' s e) : Allowed step guard' s es := by
  induction es generalizing s with
  | nil => trivial
  | cons e es ih =>
    obtain ⟨first, rest⟩ := allowed
    exact ⟨implies s e first, ih rest⟩

theorem Allowed.both {guard' : σ → ε → Prop} {s : σ} {es : List ε} (allowed : Allowed step guard s es)
    (allowed' : Allowed step guard' s es) : Allowed step (fun s e => guard s e ∧ guard' s e) s es := by
  induction es generalizing s with
  | nil => trivial
  | cons e es ih => exact ⟨⟨allowed.1, allowed'.1⟩, ih allowed.2 allowed'.2⟩

theorem allowed_and {guard' : σ → ε → Prop} {s : σ} {es : List ε} (allowed : Allowed step guard s es)
    (also : ∀ e ∈ es, ∀ s, guard' s e) : Allowed step (fun s e => guard s e ∧ guard' s e) s es := by
  induction es generalizing s with
  | nil => trivial
  | cons e es ih =>
    obtain ⟨first, rest⟩ := allowed
    exact ⟨⟨first, also e List.mem_cons_self s⟩,
      ih rest fun e' member => also e' (List.mem_cons_of_mem _ member)⟩

theorem allowed_append (s : σ) (es fs : List ε) :
    Allowed step guard s (es ++ fs) ↔
      Allowed step guard s es ∧ Allowed step guard (run step s es).1 fs := by
  induction es generalizing s with
  | nil => simp [Allowed]
  | cons e es ih => simp only [List.cons_append, Allowed, run_cons, ih, and_assoc]

/-! ## A machine within another one -/

section Projection
variable {τ ε' ω' : Type} (step : σ → ε → σ × List ω) (events : σ → ε → List ε')

/-- What a run makes a second machine do. -/
def projected : σ → List ε → List ε'
  | _, [] => []
  | s, e :: es => events s e ++ projected (step s e).1 es

theorem mem_projected {s : σ} {es : List ε} {e' : ε'} (member : e' ∈ projected step events s es) :
    ∃ s', ∃ e ∈ es, e' ∈ events s' e := by
  induction es generalizing s with
  | nil => cases member
  | cons e es ih =>
    rcases List.mem_append.mp member with first | later
    · exact ⟨s, e, List.mem_cons_self, first⟩
    · obtain ⟨s', e'', there, made⟩ := ih later
      exact ⟨s', e'', List.mem_cons_of_mem _ there, made⟩

/-- If every step is, to a part of the state and to some of the outputs, a run of the second
machine, then so is every run. -/
theorem run_projected {inner : τ → ε' → τ × List ω'} (part : σ → τ) (seen : List ω → List ω')
    (silent : seen [] = []) (append : ∀ out outs, seen (out ++ outs) = seen out ++ seen outs)
    (same : ∀ s e, run inner (part s) (events s e) = (part (step s e).1, seen (step s e).2))
    (s : σ) (es : List ε) :
    run inner (part s) (projected step events s es) = (part (run step s es).1, seen (run step s es).2) := by
  induction es generalizing s with
  | nil => rw [projected, run_nil, run_nil, silent]
  | cons e es ih => rw [projected, run_append, same, ih, run_cons, append]

/-- The same along an invariant and for admitted runs only, where the outputs of the second
machine are not a function of the first one's but go with them. -/
theorem run_simulated {inner : τ → ε' → τ × List ω'} (part : σ → τ) (Inv : σ → Prop)
    (Same : List ω' → List ω → Prop) (nothing : Same [] [])
    (append : ∀ out out' outs outs', Same out out' → Same outs outs' →
      Same (out ++ outs) (out' ++ outs'))
    (kept : ∀ s e, guard s e → Inv s → Inv (step s e).1 ∧
      (run inner (part s) (events s e)).1 = part (step s e).1 ∧
      Same (run inner (part s) (events s e)).2 (step s e).2)
    (s : σ) (start : Inv s) (es : List ε) (allowed : Allowed step guard s es) :
    (run inner (part s) (projected step events s es)).1 = part (run step s es).1 ∧
      Same (run inner (part s) (projected step events s es)).2 (run step s es).2 := by
  induction es generalizing s with
  | nil => exact ⟨rfl, nothing⟩
  | cons e es ih =>
    obtain ⟨admitted, rest⟩ := allowed
    obtain ⟨inv, state, outputs⟩ := kept s e admitted start
    obtain ⟨state', outputs'⟩ := ih _ inv rest
    rw [projected, run_append, run_cons, state]
    exact ⟨state', append _ _ _ _ outputs outputs'⟩

/-- An invariant that ties the state to the history and to what the run did so far. -/
theorem projected_invariant (Inv : σ → List ω → List ε' → Prop)
    (kept : ∀ s e past done, guard s e → Inv s past done →
      Inv (step s e).1 (past ++ (step s e).2) (done ++ events s e))
    (s : σ) (past : List ω) (done : List ε') (start : Inv s past done) (es : List ε)
    (allowed : Allowed step guard s es) :
    Inv (run step s es).1 (past ++ (run step s es).2) (done ++ projected step events s es) := by
  induction es generalizing s past done with
  | nil => simpa [projected] using start
  | cons e es ih =>
    obtain ⟨admitted, rest⟩ := allowed
    simpa only [run_cons, projected, List.append_assoc] using
      ih _ _ _ (kept s e past done admitted start) rest

/-- What a run makes the second machine do is admitted exactly if what each step makes it do is. -/
theorem allowed_projected {inner : τ → ε' → τ × List ω'} {guard' : τ → ε' → Prop} (part : σ → τ)
    (Inv : σ → Prop)
    (kept : ∀ s e, guard s e → Inv s → Inv (step s e).1 ∧
      (run inner (part s) (events s e)).1 = part (step s e).1)
    (s : σ) (start : Inv s) (es : List ε) (allowed : Allowed step guard s es) :
    Allowed inner guard' (part s) (projected step events s es) ↔
      Allowed step (fun s e => Allowed inner guard' (part s) (events s e)) s es := by
  induction es generalizing s with
  | nil => exact Iff.rfl
  | cons e es ih =>
    obtain ⟨admitted, rest⟩ := allowed
    obtain ⟨inv, state⟩ := kept s e admitted start
    rw [projected, allowed_append, state, ih _ inv rest]
    rfl

end Projection

theorem allowed_of_forall (s : σ) (es : List ε) (admitted : ∀ e ∈ es, ∀ s, guard s e) :
    Allowed step guard s es := by
  induction es generalizing s with
  | nil => trivial
  | cons e es ih =>
    exact ⟨admitted e List.mem_cons_self s,
      ih _ fun e' member => admitted e' (List.mem_cons_of_mem _ member)⟩

/-- An invariant between state and history that every admitted step keeps holds after
every admitted run. -/
theorem run_invariant (Inv : σ → List ω → Prop)
    (kept : ∀ s e past, guard s e → Inv s past → Inv (step s e).1 (past ++ (step s e).2))
    (s : σ) (past : List ω) (start : Inv s past) (es : List ε)
    (allowed : Allowed step guard s es) :
    Inv (run step s es).1 (past ++ (run step s es).2) := by
  induction es generalizing s past with
  | nil => simpa using start
  | cons e es ih =>
    obtain ⟨admitted, rest⟩ := allowed
    simpa only [run_cons, List.append_assoc] using ih _ _ (kept s e past admitted start) rest

/-- The same rule where every input is admitted. -/
theorem run_invariant_always (Inv : σ → List ω → Prop)
    (kept : ∀ s e past, Inv s past → Inv (step s e).1 (past ++ (step s e).2))
    (s : σ) (past : List ω) (start : Inv s past) (es : List ε) :
    Inv (run step s es).1 (past ++ (run step s es).2) := by
  induction es generalizing s past with
  | nil => simpa using start
  | cons e es ih =>
    simpa only [run_cons, List.append_assoc] using ih _ _ (kept s e past start)

/-- A property of states alone that every admitted step keeps. -/
theorem run_state_invariant (Inv : σ → Prop)
    (kept : ∀ s e, guard s e → Inv s → Inv (step s e).1) (s : σ) (start : Inv s) (es : List ε)
    (allowed : Allowed step guard s es) : Inv (run step s es).1 :=
  run_invariant (fun s _ => Inv s) (fun s e _ admitted inv => kept s e admitted inv)
    s [] start es allowed

/-- A run goes through no input that is singled out, or there is a last one. -/
theorem run_last (D : σ → ε → Prop) (s : σ) (es : List ε) :
    Allowed step (fun s e => ¬ D s e) s es ∨
      ∃ before e after, es = before ++ e :: after ∧ D (run step s before).1 e ∧
        Allowed step (fun s e => ¬ D s e) (run step s (before ++ [e])).1 after := by
  induction es generalizing s with
  | nil => exact Or.inl trivial
  | cons e es ih =>
    rcases ih (step s e).1 with none_later | ⟨before, e', after, rfl, here, none_later⟩
    · by_cases first : D s e
      · exact Or.inr ⟨[], e, es, rfl, first, none_later⟩
      · exact Or.inl ⟨first, none_later⟩
    · exact Or.inr ⟨e :: before, e', after, rfl, here, none_later⟩

/-- An output promises something of the states behind it until another one revokes it: what
the step that gives the output makes true, and steps that revoke nothing keep, is true at the end
of a run that has not revoked it since. -/
theorem run_promised (Inv : σ → Prop) (Promise : ω → σ → Prop) (Revokes : ω → Prop)
    (kept : ∀ s e, guard s e → Inv s → Inv (step s e).1)
    (made : ∀ s e, guard s e → Inv s → ∀ past o later, (step s e).2 = past ++ o :: later →
      (∀ o' ∈ later, ¬ Revokes o') → Promise o (step s e).1)
    (still : ∀ s e o, guard s e → Inv s → Promise o s → (∀ o' ∈ (step s e).2, ¬ Revokes o') →
      Promise o (step s e).1)
    (s : σ) (start : Inv s) (es : List ε) (allowed : Allowed step guard s es) {past later : List ω}
    {o : ω} (given : (run step s es).2 = past ++ o :: later) (since : ∀ o' ∈ later, ¬ Revokes o') :
    Promise o (run step s es).1 := by
  have carried := run_invariant
    (fun s outs => Inv s ∧ ∀ past o later, outs = past ++ o :: later →
      (∀ o' ∈ later, ¬ Revokes o') → Promise o s)
    (fun s e outs admitted inv => by
      refine ⟨kept s e admitted inv.1, ?_⟩
      intro past o later given since
      rcases List.append_eq_append_iff.mp given with ⟨inside, -, here⟩ | ⟨inside, before, here⟩
      · exact made s e admitted inv.1 inside o later here since
      · cases inside with
        | nil =>
          rw [List.nil_append] at here
          exact made s e admitted inv.1 [] o later here.symm since
        | cons o' inside =>
          simp only [List.cons_append, List.cons.injEq] at here
          obtain ⟨rfl, rfl⟩ := here
          refine still s e o admitted inv.1 (inv.2 past o inside before ?_) ?_
          · exact fun o' member => since o' (List.mem_append_left _ member)
          · exact fun o' member => since o' (List.mem_append_right _ member))
    s [] ⟨start, fun past o later none => by simp at none⟩ es allowed
  exact carried.2 past o later (by rwa [List.nil_append]) since

/-- An amount that no step lowers, and that a step leaves alone exactly if it is admitted, is
left alone by a run exactly if all its inputs are. -/
theorem run_measured (Inv : σ → Nat → Prop)
    (measured : ∀ s e n, Inv s n → ∃ extra, Inv (step s e).1 (n + extra) ∧ (extra = 0 ↔ guard s e))
    (s : σ) (n : Nat) (start : Inv s n) (es : List ε) :
    ∃ extra, Inv (run step s es).1 (n + extra) ∧ (extra = 0 ↔ Allowed step guard s es) := by
  induction es generalizing s n with
  | nil => exact ⟨0, start, iff_of_true rfl trivial⟩
  | cons e es ih =>
    obtain ⟨first, inv, admitted⟩ := measured s e n start
    obtain ⟨rest, inv', later⟩ := ih _ _ inv
    refine ⟨first + rest, ?_, ?_⟩
    · rw [run_cons, ← Nat.add_assoc]
      exact inv'
    · rw [Nat.add_eq_zero_iff, admitted, later]
      rfl

/-! ## Two machines in lockstep -/

section Lockstep
variable {τ : Type} {step' : τ → ε → τ × List ω}

/-- Every input is admitted by the guard in the two states it arrives in. -/
def Lockstep (step : σ → ε → σ × List ω) (step' : τ → ε → τ × List ω) (guard : σ → τ → ε → Prop) :
    σ → τ → List ε → Prop
  | _, _, [] => True
  | s, t, e :: es => guard s t e ∧ Lockstep step step' guard (step s e).1 (step' t e).1 es

/-- A relation that every admitted step keeps, with outputs that look the same, holds after every
admitted run, with histories that look the same. -/
theorem run_lockstep {guard : σ → τ → ε → Prop} (R : σ → τ → Prop) (Same : List ω → List ω → Prop)
    (nothing : Same [] [])
    (append : ∀ out out' outs outs', Same out out' → Same outs outs' →
      Same (out ++ outs) (out' ++ outs'))
    (kept : ∀ s t e, guard s t e → R s t →
      R (step s e).1 (step' t e).1 ∧ Same (step s e).2 (step' t e).2)
    {s : σ} {t : τ} (start : R s t) {es : List ε} (admitted : Lockstep step step' guard s t es) :
    R (run step s es).1 (run step' t es).1 ∧ Same (run step s es).2 (run step' t es).2 := by
  induction es generalizing s t with
  | nil => exact ⟨start, nothing⟩
  | cons e es ih =>
    obtain ⟨first, rest⟩ := admitted
    obtain ⟨related, seen⟩ := kept s t e first start
    obtain ⟨related', seen'⟩ := ih related rest
    rw [run_cons, run_cons]
    exact ⟨related', append _ _ _ _ seen seen'⟩

end Lockstep

/-- A property of every state on the way, the first and the last among them. -/
def Throughout (step : σ → ε → σ × List ω) (P : σ → Prop) : σ → List ε → Prop
  | s, [] => P s
  | s, e :: es => P s ∧ Throughout step P (step s e).1 es

theorem throughout_first {P : σ → Prop} {s : σ} {es : List ε} (always : Throughout step P s es) :
    P s := by
  cases es with
  | nil => exact always
  | cons e es => exact always.1

theorem throughout_final {P : σ → Prop} {s : σ} {es : List ε} (always : Throughout step P s es) :
    P (run step s es).1 := by
  induction es generalizing s with
  | nil => exact always
  | cons e es ih => exact ih always.2

/-- An invariant that admitted steps keep, and under which a step leads to a state with the
property exactly if it is admitted: then the property holds throughout exactly if every
input is admitted. -/
theorem throughout_iff_of_invariant (Inv : σ → Prop) {P : σ → Prop} (implied : ∀ s, Inv s → P s)
    (decides : ∀ s e, Inv s → (P (step s e).1 ↔ guard s e))
    (kept : ∀ s e, guard s e → Inv s → Inv (step s e).1) (s : σ) (start : Inv s) (es : List ε) :
    Throughout step P s es ↔ Allowed step guard s es := by
  induction es generalizing s with
  | nil => exact iff_of_true (implied s start) trivial
  | cons e es ih =>
    constructor
    · intro always
      obtain ⟨-, later⟩ := always
      have admitted := (decides s e start).mp (throughout_first later)
      exact ⟨admitted, (ih _ (kept s e admitted start)).mp later⟩
    · intro allowed
      obtain ⟨admitted, rest⟩ := allowed
      exact ⟨implied s start, (ih _ (kept s e admitted start)).mpr rest⟩

/-- What an invariant between state and history says of the state holds on the whole way. -/
theorem throughout_of_kept (Inv : σ → List ω → Prop) {P : σ → Prop}
    (implied : ∀ s past, Inv s past → P s)
    (kept : ∀ s e past, guard s e → Inv s past → Inv (step s e).1 (past ++ (step s e).2))
    (s : σ) (past : List ω) (start : Inv s past) (es : List ε) (allowed : Allowed step guard s es) :
    Throughout step P s es := by
  induction es generalizing s past with
  | nil => exact implied s past start
  | cons e es ih =>
    obtain ⟨admitted, rest⟩ := allowed
    exact ⟨implied s past start, ih _ _ (kept s e past admitted start) rest⟩

/-- The same where the property is its own invariant. -/
theorem throughout_iff_allowed {P : σ → Prop} (decides : ∀ s e, P s → (P (step s e).1 ↔ guard s e))
    (s : σ) (start : P s) (es : List ε) : Throughout step P s es ↔ Allowed step guard s es :=
  throughout_iff_of_invariant P (fun _ holds => holds) decides
    (fun s e admitted holds => (decides s e holds).mpr admitted) s start es

/-- The same in a run of which something else is given. -/
theorem throughout_iff_within {P : σ → Prop} {given : σ → ε → Prop}
    (decides : ∀ s e, given s e → P s → (P (step s e).1 ↔ guard s e)) (s : σ) (start : P s)
    (es : List ε) (allowed : Allowed step given s es) :
    Throughout step P s es ↔ Allowed step guard s es := by
  induction es generalizing s with
  | nil => exact iff_of_true start trivial
  | cons e es ih =>
    obtain ⟨first, rest⟩ := allowed
    have first_step := decides s e first start
    constructor
    · intro always
      obtain ⟨-, later⟩ := always
      have holds := throughout_first later
      exact ⟨first_step.mp holds, (ih _ holds rest).mp later⟩
    · intro allowed
      obtain ⟨admitted, later⟩ := allowed
      have holds := first_step.mpr admitted
      exact ⟨start, (ih _ holds rest).mpr later⟩

end OpLog.Library.Machine
