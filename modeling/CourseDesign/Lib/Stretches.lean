import Mathlib.Algebra.Order.Ring.Nat
import Mathlib.Tactic.Common

/-!
# Stretches in a row

A line is cut into stretches, one behind the other, each of its own length.  A place on the line is
counted from the beginning, or named by its stretch and its place there.

* `before` — where a stretch begins.
* `locate` — the search for the stretch, from the first on.
* `locate_before`, `exists_before` — the two ways to name a place are each other's inverse.
-/

namespace Stretches

/-- The lengths of the `k` stretches from `i` on, together. -/
def before (len : ℕ → ℕ) (i : ℕ) : ℕ → ℕ
  | 0 => 0
  | k + 1 => before len i k + len (i + k)

/-- The stretch that the place `n` is in, and the place there; `fuel` bounds the search. -/
def locate (len : ℕ → ℕ) : ℕ → ℕ → ℕ → Option (ℕ × ℕ)
  | 0, _, _ => none
  | fuel + 1, n, i => if len i ≤ n then locate len fuel (n - len i) (i + 1) else some (n, i)

variable {len : ℕ → ℕ} {i k n r fuel : ℕ}

theorem before_succ' : before len i (k + 1) = len i + before len (i + 1) k := by
  induction k with
  | zero => simp [before]
  | succ k ih =>
      rw [before, ih, before, Nat.add_assoc, Nat.add_right_comm i 1 k, Nat.add_assoc i k 1]

/-- A place in one of the first `k` stretches is not behind them. -/
theorem before_add_lt {j : ℕ} (hr : r < len (i + j)) (hj : j < k) :
    before len i j + r < before len i k := by
  induction k with
  | zero => exact absurd hj (Nat.not_lt_zero _)
  | succ k ih =>
      rw [before]
      rcases Nat.lt_succ_iff_lt_or_eq.mp hj with hlt | rfl
      · have hbefore := ih hlt
        omega
      · omega

/-- The first `k` stretches and some more are found again. -/
theorem locate_before (hr : r < len (i + k)) (hfuel : k < fuel) :
    locate len fuel (before len i k + r) i = some (r, i + k) := by
  induction k generalizing i fuel with
  | zero =>
      obtain ⟨fuel, rfl⟩ := Nat.exists_eq_add_of_lt hfuel
      rw [Nat.add_zero] at hr
      rw [before, Nat.zero_add, Nat.zero_add, locate, if_neg (Nat.not_le.mpr hr), Nat.add_zero]
  | succ k ih =>
      obtain ⟨fuel, rfl⟩ := Nat.exists_eq_add_of_lt hfuel
      have hr' : r < len (i + 1 + k) := by rwa [Nat.add_right_comm, Nat.add_assoc]
      rw [before_succ', locate, if_pos (by omega), Nat.add_assoc (len i), Nat.add_sub_cancel_left,
        ih hr' (by omega), Nat.add_right_comm, Nat.add_assoc]

/-- Every place is in one of the first `k` stretches, if it is not behind them. -/
theorem exists_before (hn : n < before len i k) :
    ∃ j r, j < k ∧ r < len (i + j) ∧ n = before len i j + r := by
  induction k with
  | zero => exact absurd hn (Nat.not_lt_zero _)
  | succ k ih =>
      by_cases hlt : n < before len i k
      · obtain ⟨j, r, hj, hr, heq⟩ := ih hlt
        exact ⟨j, r, Nat.lt_succ_of_lt hj, hr, heq⟩
      · rw [before] at hn
        exact ⟨k, n - before len i k, Nat.lt_succ_self k, by omega, by omega⟩

/-- So many stretches of at least a length. -/
theorem mul_le_before {m : ℕ} (h : ∀ j, m ≤ len j) : k * m ≤ before len i k := by
  induction k with
  | zero => simp [before]
  | succ k ih =>
      have hm := h (i + k)
      rw [before, Nat.succ_mul]
      omega

end Stretches
