import Mathlib.Algebra.BigOperators.Group.List.Basic
import Mathlib.Algebra.Ring.Nat

/-!
# Totals

The sum of an amount over a list: what it is over the list's parts, and how it follows a
change of one element.
-/
namespace OpLog.Library

variable {α : Type}

def total (amount : α → Nat) (xs : List α) : Nat := (xs.map amount).sum

@[simp] theorem total_nil (amount : α → Nat) : total amount [] = 0 := rfl

@[simp] theorem total_cons (amount : α → Nat) (x : α) (xs : List α) :
    total amount (x :: xs) = amount x + total amount xs := by
  rw [total, List.map_cons, List.sum_cons, total]

theorem total_append (amount : α → Nat) (xs ys : List α) :
    total amount (xs ++ ys) = total amount xs + total amount ys := by
  rw [total, List.map_append, List.sum_append, total, total]

theorem total_eq_zero (amount : α → Nat) (xs : List α) (none : ∀ x ∈ xs, amount x = 0) :
    total amount xs = 0 := by
  induction xs with
  | nil => rfl
  | cons x xs ih =>
    rw [total_cons, none x List.mem_cons_self, Nat.zero_add]
    exact ih fun y member => none y (List.mem_cons_of_mem _ member)

theorem total_add (amount more : α → Nat) (xs : List α) :
    total (fun x => amount x + more x) xs = total amount xs + total more xs := by
  induction xs with
  | nil => rfl
  | cons x xs ih =>
    simp only [total_cons, ih]
    omega

theorem le_total (amount : α → Nat) {xs : List α} {x : α} (member : x ∈ xs) :
    amount x ≤ total amount xs := by
  induction member with
  | head xs => exact Nat.le_add_right _ _
  | tail y _ ih => exact Nat.le_trans ih (Nat.le_add_left _ _)

theorem total_set (amount : α → Nat) (xs : List α) (i : Nat) (old new : α)
    (there : xs[i]? = some old) :
    total amount (xs.set i new) + amount old = total amount xs + amount new := by
  induction xs generalizing i with
  | nil => cases there
  | cons x xs ih =>
    cases i with
    | zero =>
      cases there
      simp only [List.set_cons_zero, total_cons]
      omega
    | succ i =>
      have rest := ih i there
      simp only [List.set_cons_succ, total_cons] at rest ⊢
      omega

theorem total_flatMap {β : Type} (amount : β → Nat) (part : α → List β) (xs : List α) :
    total amount (xs.flatMap part) = total (fun x => total amount (part x)) xs := by
  induction xs with
  | nil => rfl
  | cons x xs ih => rw [List.flatMap_cons, total_append, total_cons, ih]

theorem total_perm (amount : α → Nat) {xs ys : List α} (same : xs.Perm ys) :
    total amount xs = total amount ys :=
  (same.map amount).sum_nat

end OpLog.Library
