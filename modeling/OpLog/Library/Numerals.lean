import Mathlib.Algebra.Ring.Nat

/-!
# Padded numbers and unique splits

A number in decimal with zeros in front determines the number, and has its width as long as
it fits. Two ways to read a list put together from parts: a run of marked elements ends where
the first unmarked one follows it, and a separator is found again by the number of its
occurrences behind it.
-/
namespace OpLog.Library.Numerals

/-! ## Numbers -/

def padded (width n : Nat) : List Char := List.leftpad width '0' (Nat.toDigits 10 n)

theorem isDigit_of_mem_padded {width n : Nat} {c : Char} (member : c ∈ padded width n) :
    c.isDigit = true := by
  rcases List.mem_append.mp member with zero | digit
  · rw [List.eq_of_mem_replicate zero]
    rfl
  · exact Nat.isDigit_of_mem_toDigits (by decide) (by decide) digit

theorem padded_inj {width m n : Nat} (same : padded width m = padded width n) : m = n := by
  have value (n : Nat) : Nat.ofDigitChars 10 (padded width n) 0 = n := by
    unfold padded List.leftpad
    rw [Nat.ofDigitChars_append, Nat.ofDigitChars_replicate_zero, Nat.mul_zero,
      Nat.ofDigitChars_ten_toDigits]
  rw [← value m, ← value n, same]

theorem le_length_padded (width n : Nat) : width ≤ (padded width n).length := by
  unfold padded
  rw [List.length_leftpad]
  exact Nat.le_max_left _ _

theorem length_padded {width n : Nat} (positive : 0 < width) (fits : n < 10 ^ width) :
    (padded width n).length = width := by
  have digits : (Nat.toDigits 10 n).length ≤ width :=
    (Nat.length_toDigits_le_iff (by decide) positive).mpr fits
  unfold padded
  rw [List.length_leftpad]
  exact Nat.max_eq_left digits

/-! ## Splits -/

section Splits
variable {α : Type}

/-- A run of marked elements, with something unmarked or nothing behind it. -/
theorem split_run {marked : α → Bool} {run run' rest rest' : List α}
    (all : ∀ x ∈ run, marked x = true) (all' : ∀ x ∈ run', marked x = true)
    (stop : ∀ x ∈ rest.head?, marked x = false) (stop' : ∀ x ∈ rest'.head?, marked x = false)
    (same : run ++ rest = run' ++ rest') : run = run' ∧ rest = rest' := by
  induction run generalizing run' with
  | nil =>
    cases run' with
    | nil => exact ⟨rfl, same⟩
    | cons x run' =>
      have unmarked := stop x (by rw [show rest = _ from same]; rfl)
      rw [all' x List.mem_cons_self] at unmarked
      cases unmarked
  | cons x run ih =>
    cases run' with
    | nil =>
      have unmarked := stop' x (by rw [← show _ = rest' from same]; rfl)
      rw [all x List.mem_cons_self] at unmarked
      cases unmarked
    | cons x' run' =>
      rw [List.cons_append, List.cons_append, List.cons.injEq] at same
      obtain ⟨tail, after⟩ := ih (fun y later => all y (List.mem_cons_of_mem x later))
        (fun y later => all' y (List.mem_cons_of_mem x' later)) same.2
      exact ⟨by rw [same.1, tail], after⟩

/-- A separator with as many others behind it on both sides. -/
theorem split_at_mark [DecidableEq α] {mark : α} {xs ys xs' ys' : List α}
    (same : xs ++ mark :: ys = xs' ++ mark :: ys') (count : ys.count mark = ys'.count mark) :
    xs = xs' ∧ ys = ys' := by
  have longer {a zs zs' : List α} (split : mark :: zs = a ++ mark :: zs')
      (count : zs.count mark = zs'.count mark) : a = [] := by
    cases a with
    | nil => rfl
    | cons c a =>
      rw [List.cons_append, List.cons.injEq] at split
      rw [split.2, List.count_append, List.count_cons_self] at count
      omega
  rcases List.append_eq_append_iff.mp same with ⟨a, first, second⟩ | ⟨a, first, second⟩
  · have none := longer second count
    subst none
    rw [List.append_nil] at first
    exact ⟨first.symm, (List.cons.inj second).2⟩
  · have none := longer second count.symm
    subst none
    rw [List.append_nil] at first
    exact ⟨first, (List.cons.inj second).2.symm⟩

end Splits
end OpLog.Library.Numerals
