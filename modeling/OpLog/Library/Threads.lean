import OpLog.Library.Machine
import OpLog.Library.Total

/-!
# Threads over a shared state

Any number of threads, each at a place of its own, over one shared state. `advance` lets
one of them take its next atomic step; a schedule that picks the threads in any order is an
interleaving. What the threads hold privately is a total over their places, and a step
changes at most what its own thread holds.
-/
namespace OpLog.Library

structure Threads (σ τ : Type) where
  shared : σ
  threads : List τ

namespace Threads

variable {σ τ ω : Type}

/-- The `i`-th thread takes a step; without such a thread nothing happens. -/
def advance (step : σ → τ → σ × τ × List ω) (s : Threads σ τ) (i : Nat) : Threads σ τ × List ω :=
  match s.threads[i]? with
  | none => (s, [])
  | some place =>
    let (shared, place, out) := step s.shared place
    (⟨shared, s.threads.set i place⟩, out)

variable {step : σ → τ → σ × τ × List ω} {s : Threads σ τ} {i : Nat} {place : τ}

theorem advance_none (absent : s.threads[i]? = none) : s.advance step i = (s, []) := by
  unfold advance
  rw [absent]

theorem advance_some (there : s.threads[i]? = some place) :
    s.advance step i =
      (⟨(step s.shared place).1, s.threads.set i (step s.shared place).2.1⟩,
        (step s.shared place).2.2) := by
  unfold advance
  rw [there]

variable (step) in
/-- If each step of a thread balances what is shared, what it holds, and what goes in and
out, so does the step of any thread among all of them. -/
theorem advance_conserves (shared : σ → Nat) (held : τ → Nat) (taken put : List ω → Nat)
    (silent : taken [] = 0 ∧ put [] = 0)
    (conserves : ∀ s place, shared (step s place).1 + held (step s place).2.1 + put (step s place).2.2 =
      shared s + held place + taken (step s place).2.2) (s : Threads σ τ) (i : Nat) :
    shared (s.advance step i).1.shared + total held (s.advance step i).1.threads +
        put (s.advance step i).2 =
      shared s.shared + total held s.threads + taken (s.advance step i).2 := by
  cases there : s.threads[i]? with
  | none => rw [advance_none there, silent.1, silent.2]
  | some place =>
    rw [advance_some there]
    have moved := total_set held s.threads i place (step s.shared place).2.1 there
    have kept := conserves s.shared place
    dsimp only
    omega

/-- A place among the threads after a step is an old one, or the one the step leads to. -/
theorem mem_advance {thread : τ} (member : thread ∈ (s.advance step i).1.threads) :
    thread ∈ s.threads ∨ ∃ place, s.threads[i]? = some place ∧ thread = (step s.shared place).2.1 := by
  cases there : s.threads[i]? with
  | none =>
    rw [advance_none there] at member
    exact Or.inl member
  | some place =>
    rw [advance_some there] at member
    rcases List.mem_or_eq_of_mem_set member with old | new
    · exact Or.inl old
    · exact Or.inr ⟨place, rfl, new⟩

end Threads
end OpLog.Library
