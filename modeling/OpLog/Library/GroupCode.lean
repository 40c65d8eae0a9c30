import Mathlib.Algebra.Ring.Nat

/-!
# Numbers in groups, low group first

A quantity is written in symbols that each carry one digit and say whether another
symbol follows. The code delimits itself: two quantities at the start of one stream are
the same quantity. Symbols, digits and base are parameters.
-/
namespace OpLog.Library.GroupCode

variable {α : Type} (more : α → Bool) (digit : α → Nat) (base : Nat)

/-- `Quantity xs n`: the symbols `xs` are a complete quantity of value `n`. -/
inductive Quantity : List α → Nat → Prop where
  | last (a : α) (h : more a = false) : Quantity [a] (digit a)
  | next (a : α) (rest : List α) (n : Nat) (h : more a = true) (tail : Quantity rest n) :
      Quantity (a :: rest) (digit a + base * n)

variable {more digit base}

theorem Quantity.ne_nil {xs : List α} {n : Nat} (h : Quantity more digit base xs n) : xs ≠ [] := by
  cases h <;> simp

/-- At the start of one stream there is at most one quantity. -/
theorem Quantity.unique {xs ys s t : List α} {n m : Nat} (hx : Quantity more digit base xs n)
    (hy : Quantity more digit base ys m) (same : xs ++ s = ys ++ t) : xs = ys ∧ n = m := by
  induction hx generalizing ys m with
  | last a ha =>
    cases hy with
    | last b hb =>
      simp only [List.cons_append, List.nil_append, List.cons.injEq] at same
      rw [same.1]
      exact ⟨rfl, rfl⟩
    | next b rest m hb tail =>
      simp only [List.cons_append, List.cons.injEq] at same
      rw [same.1, hb] at ha
      cases ha
  | next a rest n ha tail ih =>
    cases hy with
    | last b hb =>
      simp only [List.cons_append, List.cons.injEq] at same
      rw [same.1, hb] at ha
      cases ha
    | next b rest' m hb tail' =>
      simp only [List.cons_append, List.cons.injEq] at same
      obtain ⟨rfl, same⟩ := same
      obtain ⟨rfl, rfl⟩ := ih tail' same
      exact ⟨rfl, rfl⟩

/-- A quantity is bounded by its number of symbols. -/
theorem Quantity.lt {xs : List α} {n : Nat} (h : Quantity more digit base xs n)
    (digits : ∀ a, digit a < base) : n < base ^ xs.length := by
  induction h with
  | last a ha => simpa using digits a
  | next a rest n ha tail ih =>
    have low := digits a
    have high : base * (n + 1) ≤ base * base ^ rest.length := Nat.mul_le_mul_left base ih
    rw [Nat.mul_add, Nat.mul_one] at high
    rw [List.length_cons, Nat.pow_succ, Nat.mul_comm (base ^ rest.length)]
    omega

/-- Symbols that all announce another one are the start of some quantity: any closing
symbol completes them. -/
theorem quantity_of_continuing (xs : List α) (a : α) (hxs : ∀ x ∈ xs, more x = true)
    (ha : more a = false) : ∃ n, Quantity more digit base (xs ++ [a]) n := by
  induction xs with
  | nil => exact ⟨_, .last a ha⟩
  | cons x xs ih =>
    obtain ⟨n, hn⟩ := ih (fun y hy => hxs y (List.mem_cons_of_mem x hy))
    exact ⟨_, .next x (xs ++ [a]) n (hxs x List.mem_cons_self) hn⟩

/-- In a quantity, all symbols but the last announce another one. -/
theorem Quantity.split {xs : List α} {n : Nat} (h : Quantity more digit base xs n) :
    ∃ init a, xs = init ++ [a] ∧ (∀ x ∈ init, more x = true) ∧ more a = false := by
  induction h with
  | last a ha => exact ⟨[], a, rfl, by simp, ha⟩
  | next a rest n ha tail ih =>
    obtain ⟨init, b, rfl, hinit, hb⟩ := ih
    refine ⟨a :: init, b, rfl, ?_, hb⟩
    intro x hx
    rcases List.mem_cons.mp hx with rfl | hx
    · exact ha
    · exact hinit x hx

end OpLog.Library.GroupCode
