import Mathlib.Tactic.IntervalCases
import Mathlib.Tactic.Ring
import Mathlib.Logic.Function.Basic

/-!
# Decimal text as bytes

What `%llu` prints for a number, as ASCII bytes, and the reader that inverts it.  `readDigits` is
stated for any byte string, so that it also reads fixed-width fields with leading zeros.
-/

namespace Decimal

/-- The ASCII byte of a decimal digit. -/
def digitByte (d : ℕ) : UInt8 := (0x30 + d).toUInt8

/-- The decimal text of a number, most significant digit first and without leading zeros. -/
def text (n : ℕ) : List UInt8 := (Nat.toDigits 10 n).map fun c => c.toNat.toUInt8

/-- Read a string of digit bytes as a decimal number. -/
def readDigits (bs : List UInt8) : ℕ := bs.foldl (fun acc b => 10 * acc + (b.toNat - 0x30)) 0

def IsDigit (b : UInt8) : Prop := 0x30 ≤ b.toNat ∧ b.toNat ≤ 0x39

theorem digitByte_toNat {d : ℕ} (hd : d < 10) : (digitByte d).toNat = 0x30 + d := by
  interval_cases d <;> rfl

theorem isDigit_digitByte {d : ℕ} (hd : d < 10) : IsDigit (digitByte d) := by
  rw [IsDigit, digitByte_toNat hd]
  omega

theorem digitChar_byte {d : ℕ} (hd : d < 10) : (Nat.digitChar d).toNat.toUInt8 = digitByte d := by
  interval_cases d <;> rfl

theorem text_of_lt {n : ℕ} (hn : n < 10) : text n = [digitByte n] := by
  rw [text, Nat.toDigits_of_lt_base hn, List.map_singleton, digitChar_byte hn]

theorem text_of_le {n : ℕ} (hn : 10 ≤ n) : text n = text (n / 10) ++ [digitByte (n % 10)] := by
  have hd : n % 10 < 10 := Nat.mod_lt n (by decide)
  rw [text, Nat.toDigits_of_base_le (by decide) hn, List.map_append, List.map_singleton,
    digitChar_byte hd, text]

theorem readDigits_concat (bs : List UInt8) (b : UInt8) :
    readDigits (bs ++ [b]) = 10 * readDigits bs + (b.toNat - 0x30) := by
  simp [readDigits]

/-- **The text reads back as the number.** -/
theorem readDigits_text (n : ℕ) : readDigits (text n) = n := by
  induction n using Nat.strong_induction_on with
  | _ n ih =>
      rcases Nat.lt_or_ge n 10 with hn | hn
      · rw [text_of_lt hn, ← List.nil_append [digitByte n], readDigits_concat, digitByte_toNat hn]
        simp [readDigits]
      · have hlt : n / 10 < n := Nat.div_lt_self (by omega) (by decide)
        rw [text_of_le hn, readDigits_concat, ih _ hlt, digitByte_toNat (Nat.mod_lt n (by decide))]
        omega

/-- A text has at least one digit and nothing but digits. -/
theorem text_digits (n : ℕ) : text n ≠ [] ∧ ∀ b ∈ text n, IsDigit b := by
  induction n using Nat.strong_induction_on with
  | _ n ih =>
      rcases Nat.lt_or_ge n 10 with hn | hn
      · simp [text_of_lt hn, isDigit_digitByte hn]
      · have hlt : n / 10 < n := Nat.div_lt_self (by omega) (by decide)
        have hlast : IsDigit (digitByte (n % 10)) := isDigit_digitByte (Nat.mod_lt n (by decide))
        rw [text_of_le hn]
        refine ⟨by simp, fun b hb => ?_⟩
        rcases List.mem_append.mp hb with hb | hb
        · exact (ih _ hlt).2 b hb
        · rw [List.mem_singleton.mp hb]
          exact hlast

theorem IsDigit.ne_zero {b : UInt8} (h : IsDigit b) : b ≠ 0 := by
  rintro rfl
  have hge := h.1
  simp at hge

theorem text_injective : Function.Injective text :=
  Function.LeftInverse.injective readDigits_text

/-- **How long a text is.** -/
theorem length_text_le_iff {n k : ℕ} (hk : 0 < k) : (text n).length ≤ k ↔ n < 10 ^ k := by
  rw [text, List.length_map, Nat.length_toDigits_le_iff (by decide) hk]

/-! ## Fixed width -/

/-- The last `w` decimal digits of a number, with leading zeros. -/
def fixed : ℕ → ℕ → List UInt8
  | 0, _ => []
  | w + 1, n => fixed w (n / 10) ++ [digitByte (n % 10)]

theorem length_fixed (w n : ℕ) : (fixed w n).length = w := by
  induction w generalizing n with
  | zero => rfl
  | succ w ih => rw [fixed, List.length_append, ih, List.length_singleton]

theorem isDigit_of_mem_fixed {w n : ℕ} {b : UInt8} (h : b ∈ fixed w n) : IsDigit b := by
  induction w generalizing n with
  | zero => simp [fixed] at h
  | succ w ih =>
      rcases List.mem_append.mp h with h | h
      · exact ih h
      · rw [List.mem_singleton.mp h]
        exact isDigit_digitByte (Nat.mod_lt n (by decide))

/-- **A number that fits the width reads back.** -/
theorem readDigits_fixed {w n : ℕ} (h : n < 10 ^ w) : readDigits (fixed w n) = n := by
  induction w generalizing n with
  | zero =>
      rw [pow_zero] at h
      simp [fixed, readDigits]
      omega
  | succ w ih =>
      have hlt : n / 10 < 10 ^ w := by
        rw [pow_succ] at h
        omega
      rw [fixed, readDigits_concat, ih hlt, digitByte_toNat (Nat.mod_lt n (by decide))]
      omega

end Decimal
