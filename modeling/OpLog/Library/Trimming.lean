import Mathlib.Data.Set.Basic

/-!
# Trimming down to a core

In a set some elements stay for their own sake, and some because of one that does. An
operation trims the set if it removes nothing of this core. Trimming leaves the core what it
was, so that after any number of such operations, in any order, the one that leaves nothing
but the core reaches the same set.
-/
namespace OpLog.Library

/-- What stays for its own sake, and what an element keeps in place. -/
structure Support (E : Type) where
  own : Set E
  keeps : E → E → Prop

namespace Support
variable {E : Type} (support : Support E) {s t u : Set E}

def core (s : Set E) : Set E :=
  {e | e ∈ s ∧ (e ∈ support.own ∨ ∃ e' ∈ s, e' ∈ support.own ∧ support.keeps e' e)}

structure Trims (s t : Set E) : Prop where
  spares : support.core s ⊆ t
  within : t ⊆ s

variable {support}

theorem core_subset : support.core s ⊆ s := fun _ member => member.1

theorem mem_core_of_own {e : E} (member : e ∈ s) (own : e ∈ support.own) : e ∈ support.core s :=
  ⟨member, Or.inl own⟩

theorem Trims.refl : support.Trims s s := ⟨core_subset, fun _ member => member⟩

/-- What is trimmed has the same core. -/
theorem Trims.core_eq (trims : support.Trims s t) : support.core t = support.core s := by
  apply Set.eq_of_subset_of_subset
  · intro e core
    obtain ⟨member, stays⟩ := core
    refine ⟨trims.within member, stays.imp_right ?_⟩
    intro supported
    obtain ⟨e', there, own, keeps⟩ := supported
    exact ⟨e', trims.within there, own, keeps⟩
  · intro e core
    obtain ⟨member, stays⟩ := core
    refine ⟨trims.spares ⟨member, stays⟩, stays.imp_right ?_⟩
    intro supported
    obtain ⟨e', there, own, keeps⟩ := supported
    exact ⟨e', trims.spares (mem_core_of_own there own), own, keeps⟩

theorem Trims.trans (first : support.Trims s t) (second : support.Trims t u) : support.Trims s u where
  spares := first.core_eq ▸ second.spares
  within := second.within.trans first.within

/-- Where nothing can be removed any more, what is left is the core of the first set. -/
theorem Trims.eq_core (trims : support.Trims s t) (bare : t ⊆ support.core t) : t = support.core s :=
  Set.eq_of_subset_of_subset (trims.core_eq ▸ bare) trims.spares

end Support
end OpLog.Library
