import OpLog.Library.Machine

/-!
# Timers, and responses within a bound

A timer that falls due a period after it was last taken, up to some slack. And a rule for
machines that have to get somewhere: a need that no admitted step raises and every turn lowers
is met after as many turns, whatever comes between them.
-/
namespace OpLog.Library

/-- When a timer is due next: no later than a period after it was taken, and no earlier but
for the slack. `next` is asked with the time it was due and the time it is taken. -/
structure Ticker (period slack : Nat) where
  next : Nat → Nat → Nat
  late : ∀ due now, due ≤ now → next due now ≤ now + period
  apart : ∀ due now, due ≤ now → now + period ≤ next due now + slack

namespace Machine
variable {σ ε ω : Type} {step : σ → ε → σ × List ω} {guard : σ → ε → Prop}

instance decidableAllowed [∀ s e, Decidable (guard s e)] :
    ∀ (s : σ) (es : List ε), Decidable (Allowed step guard s es)
  | _, [] => isTrue trivial
  | s, e :: es => @instDecidableAnd _ _ _ (decidableAllowed (step s e).1 es)

/-- The inputs of a run that are turns. -/
def turns (turn : ε → Bool) (es : List ε) : Nat := es.countP turn

theorem turns_cons (turn : ε → Bool) (e : ε) (es : List ε) :
    turns turn (e :: es) = turns turn es + if turn e then 1 else 0 := List.countP_cons

/-- The goal is reached within as many turns as are needed, and not left again. -/
theorem run_within (Inv Goal : σ → List ω → Prop) (need : σ → List ω → Nat) (turn : ε → Bool)
    (kept : ∀ s e past, guard s e → Inv s past → Inv (step s e).1 (past ++ (step s e).2))
    (stays : ∀ s e past, guard s e → Inv s past → Goal s past →
      Goal (step s e).1 (past ++ (step s e).2))
    (nears : ∀ s e past, guard s e → Inv s past → ¬ Goal s past →
      Goal (step s e).1 (past ++ (step s e).2) ∨
        need (step s e).1 (past ++ (step s e).2) + (if turn e then 1 else 0) ≤ need s past)
    (needy : ∀ s past, Inv s past → ¬ Goal s past → 0 < need s past)
    (s : σ) (past : List ω) (start : Inv s past) (es : List ε) (allowed : Allowed step guard s es)
    (enough : Goal s past ∨ need s past ≤ turns turn es) :
    Goal (run step s es).1 (past ++ (run step s es).2) := by
  induction es generalizing s past with
  | nil =>
    rw [run_nil, List.append_nil]
    rcases enough with goal | none
    · exact goal
    · apply Classical.byContradiction
      intro missed
      have some_need := needy s past start missed
      rw [turns, List.countP_nil] at none
      omega
  | cons e es ih =>
    obtain ⟨admitted, rest⟩ := allowed
    rw [run_cons, ← List.append_assoc]
    apply ih _ _ (kept s e past admitted start) rest
    by_cases goal : Goal s past
    · exact Or.inl (stays s e past admitted start goal)
    · apply (nears s e past admitted start goal).imp_right
      intro nearer
      have needed := enough.resolve_left goal
      rw [turns_cons] at needed
      omega

/-- A run that leaves a property does so in one of its steps. -/
theorem run_leaves (P : σ → List ω → Prop) (s : σ) (past : List ω) (start : P s past) (es : List ε)
    (left : ¬ P (run step s es).1 (past ++ (run step s es).2)) :
    ∃ before e after, es = before ++ e :: after ∧
      P (run step s before).1 (past ++ (run step s before).2) ∧
      ¬ P (step (run step s before).1 e).1
        (past ++ (run step s before).2 ++ (step (run step s before).1 e).2) := by
  induction es generalizing s past with
  | nil =>
    rw [run_nil, List.append_nil] at left
    exact absurd start left
  | cons e es ih =>
    by_cases next : P (step s e).1 (past ++ (step s e).2)
    · rw [run_cons, ← List.append_assoc] at left
      obtain ⟨before, e', after, rfl, holds, leaves⟩ := ih _ _ next left
      refine ⟨e :: before, e', after, rfl, ?_⟩
      rw [run_cons, ← List.append_assoc]
      exact ⟨holds, leaves⟩
    · refine ⟨[], e, es, rfl, ?_⟩
      rw [run_nil, List.append_nil]
      exact ⟨start, next⟩

end Machine
end OpLog.Library
