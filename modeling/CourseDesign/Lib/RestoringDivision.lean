import Mathlib.Algebra.Order.Ring.Nat
import Mathlib.Tactic.Ring

/-!
# Restoring division

Long division of binary numbers, a bit of the dividend at a time: the dividend is shifted into a
remainder, the divisor is subtracted if it fits, and the quotient is shifted in behind itself.

* `divStep`, `divSteps` — one bit, and several.
* `divSteps_spec` — what is divided after some bits, and what is left.
* `divSteps_eq` — after all of them the quotient and the remainder are those of the whole dividend.
-/

namespace RestoringDivision

/-- The remainder, what is left of the dividend, and the quotient. -/
structure DivState where
  rem : ℕ
  low : ℕ
  quo : ℕ

/-- The remainder with the next bit of the dividend. -/
def DivState.shifted (w : ℕ) (s : DivState) : ℕ := 2 * s.rem + 2 * s.low / w

/-- One bit, in words of less than `w`. -/
def divStep (w d : ℕ) (s : DivState) : DivState where
  rem := if d ≤ s.shifted w then s.shifted w - d else s.shifted w
  low := 2 * s.low % w
  quo := (2 * s.quo + if d ≤ s.shifted w then 1 else 0) % w

/-- So many bits. -/
def divSteps (w d : ℕ) : ℕ → DivState → DivState
  | 0, s => s
  | n + 1, s => divSteps w d n (divStep w d s)

variable {w d : ℕ} {s : DivState}

/-- The bit of the quotient. -/
def DivState.bit (w d : ℕ) (s : DivState) : ℕ := if d ≤ s.shifted w then 1 else 0

/-- **One bit is divided.** -/
theorem divStep_spec (hrem : s.rem < d) (hlow : s.low < w) :
    (divStep w d s).rem < d ∧ (divStep w d s).low < w ∧
      2 * (s.rem * w + s.low) =
        (s.bit w d * d + (divStep w d s).rem) * w + (divStep w d s).low := by
  have hw : 0 < w := by omega
  have hmod := Nat.div_add_mod (2 * s.low) w
  have hbit : 2 * s.low / w ≤ 1 := by
    rw [Nat.div_le_iff_le_mul_add_pred hw]
    omega
  have hwhole : 2 * (s.rem * w + s.low) = s.shifted w * w + 2 * s.low % w := by
    calc 2 * (s.rem * w + s.low)
        = 2 * s.rem * w + (w * (2 * s.low / w) + 2 * s.low % w) := by
          rw [hmod]
          ring
      _ = s.shifted w * w + 2 * s.low % w := by
          rw [DivState.shifted]
          ring
  refine ⟨?_, Nat.mod_lt _ hw, ?_⟩
  · dsimp only [divStep]
    split
    · rw [DivState.shifted] at *
      omega
    · omega
  · rw [hwhole]
    dsimp only [divStep, DivState.bit]
    split
    next hle => rw [Nat.one_mul, Nat.add_sub_cancel' hle]
    next => rw [Nat.zero_mul, Nat.zero_add]

/-- **After `n` bits**: the quotient has `n` new bits, which divide so much of the dividend. -/
theorem divSteps_spec (n : ℕ) (hrem : s.rem < d) (hlow : s.low < w) : ∃ q, q < 2 ^ n ∧
    (divSteps w d n s).quo % w = (2 ^ n * s.quo + q) % w ∧ (divSteps w d n s).rem < d ∧
      (divSteps w d n s).low = 2 ^ n * s.low % w ∧
      2 ^ n * (s.rem * w + s.low) =
        (q * d + (divSteps w d n s).rem) * w + (divSteps w d n s).low := by
  induction n generalizing s with
  | zero => exact ⟨0, by simp, by simp [divSteps], hrem, by simp [divSteps, Nat.mod_eq_of_lt hlow],
      by simp [divSteps]⟩
  | succ n ih =>
      obtain ⟨hrem', hlow', hone⟩ := divStep_spec hrem hlow
      obtain ⟨q, hq, hquo, hlt, hlast, hall⟩ := ih hrem' hlow'
      have hbit : s.bit w d ≤ 1 := by
        rw [DivState.bit]
        split
        · exact Nat.le_refl _
        · exact Nat.zero_le _
      refine ⟨2 ^ n * s.bit w d + q, ?_, ?_, hlt, ?_, ?_⟩
      · have hle : 2 ^ n * s.bit w d ≤ 2 ^ n * 1 := Nat.mul_le_mul_left _ hbit
        rw [Nat.pow_succ]
        omega
      · rw [divSteps, hquo, Nat.add_mod, Nat.mul_mod]
        dsimp only [divStep]
        rw [Nat.mod_mod, ← Nat.mul_mod, ← Nat.add_mod]
        congr 1
        rw [DivState.bit, Nat.pow_succ]
        ring
      · rw [divSteps, hlast]
        dsimp only [divStep]
        rw [Nat.mul_mod, Nat.mod_mod, ← Nat.mul_mod, ← Nat.mul_assoc, Nat.pow_succ]
      · calc 2 ^ (n + 1) * (s.rem * w + s.low)
            = 2 ^ n * (2 * (s.rem * w + s.low)) := by rw [Nat.pow_succ, Nat.mul_assoc]
          _ = 2 ^ n * s.bit w d * d * w +
                2 ^ n * ((divStep w d s).rem * w + (divStep w d s).low) := by
              rw [hone]
              ring
          _ = _ := by
              rw [hall, divSteps]
              ring

/-- **The division**, of words of `n` bits: the high word of the dividend is less than the
divisor. -/
theorem divSteps_eq (n : ℕ) (hrem : s.rem < d) (hlow : s.low < 2 ^ n) :
    (divSteps (2 ^ n) d n s).quo % 2 ^ n = (s.rem * 2 ^ n + s.low) / d ∧
      (divSteps (2 ^ n) d n s).rem = (s.rem * 2 ^ n + s.low) % d := by
  obtain ⟨q, hq, hquo, hlt, hlast, hall⟩ := divSteps_spec n hrem hlow
  rw [Nat.mul_mod_right] at hlast
  rw [hlast, Nat.add_zero, Nat.mul_comm] at hall
  have hwhole : s.rem * 2 ^ n + s.low = q * d + (divSteps (2 ^ n) d n s).rem :=
    Nat.eq_of_mul_eq_mul_right (Nat.two_pow_pos n) hall
  have hd : 0 < d := by omega
  rw [hquo, Nat.mul_add_mod, Nat.mod_eq_of_lt hq, hwhole, Nat.mul_comm q d, Nat.mul_add_div hd,
    Nat.div_eq_of_lt hlt, Nat.add_zero, Nat.mul_add_mod, Nat.mod_eq_of_lt hlt]
  exact ⟨rfl, rfl⟩

end RestoringDivision
