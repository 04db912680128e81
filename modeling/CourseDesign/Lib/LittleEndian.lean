import Mathlib.Data.Nat.Digits.Defs
import Mathlib.Tactic.Ring
import Mathlib.Tactic.Positivity

/-!
# Little-endian numbers

A number as a fixed count of bytes, least significant first, and the number that bytes spell.

* `number_bytes` — a number that fits reads back.
* `number_inj` — and as many bytes are determined by their number.
* `field_record` — so does every field of a record of such numbers.
* `shiftLeft_or_byte` — the step of a loop that packs bytes with shifts and ors.
-/

namespace LittleEndian

/-- The number that the bytes spell. -/
def number (bs : List UInt8) : ℕ := Nat.ofDigits 256 (bs.map UInt8.toNat)

/-- The `w` low bytes of a number. -/
def bytes : ℕ → ℕ → List UInt8
  | 0, _ => []
  | w + 1, n => n.toUInt8 :: bytes w (n / 256)

@[simp] theorem number_nil : number [] = 0 := rfl

@[simp] theorem number_cons (b : UInt8) (bs : List UInt8) :
    number (b :: bs) = b.toNat + 256 * number bs := by
  simp [number, Nat.ofDigits_cons]

@[simp] theorem length_bytes (w n : ℕ) : (bytes w n).length = w := by
  induction w generalizing n with
  | zero => rfl
  | succ w ih => simp [bytes, ih]

theorem number_lt (bs : List UInt8) : number bs < 256 ^ bs.length := by
  induction bs with
  | nil => simp
  | cons b bs ih =>
      have hb : b.toNat < 256 := b.toNat_lt
      rw [number_cons, List.length_cons, pow_succ]
      omega

/-- **A number that fits the width reads back.** -/
theorem number_bytes {w n : ℕ} (h : n < 256 ^ w) : number (bytes w n) = n := by
  induction w generalizing n with
  | zero =>
      rw [pow_zero] at h
      simp only [bytes, number_nil]
      omega
  | succ w ih =>
      have hlt : n / 256 < 256 ^ w := by
        rw [pow_succ] at h
        omega
      have hlow : n.toUInt8.toNat = n % 256 := by simp
      rw [bytes, number_cons, ih hlt, hlow]
      omega

/-- Bytes are those of the number they spell. -/
theorem bytes_number (bs : List UInt8) : bytes bs.length (number bs) = bs := by
  induction bs with
  | nil => rfl
  | cons b bs ih =>
      have hb : b.toNat < 256 := b.toNat_lt
      have hdiv : (b.toNat + 256 * number bs) / 256 = number bs := by omega
      have hlow : (b.toNat + 256 * number bs).toUInt8 = b := by
        apply UInt8.toNat_inj.mp
        simp only [Nat.toUInt8_eq, UInt8.toNat_ofNat']
        omega
      rw [number_cons, List.length_cons, bytes, hdiv, hlow, ih]

/-- **As many bytes that spell the same number are the same bytes.** -/
theorem number_inj {bs cs : List UInt8} (hlen : bs.length = cs.length)
    (h : number bs = number cs) : bs = cs := by
  rw [← bytes_number bs, hlen, h, bytes_number]

/-! ## Fields of a record -/

/-- The number in the `w` bytes at `offset`. -/
def field (bs : List UInt8) (offset w : ℕ) : ℕ := number ((bs.drop offset).take w)

/-- A field behind `pre` reads back. -/
theorem field_append {pre : List UInt8} {offset w n : ℕ} (hpre : pre.length = offset)
    (hn : n < 256 ^ w) (post : List UInt8) :
    field (pre ++ (bytes w n ++ post)) offset w = n := by
  rw [field, List.drop_left' hpre, List.take_left' (length_bytes w n), number_bytes hn]

/-- A field is found in every part of the record that has it. -/
theorem field_take {bs : List UInt8} {offset w n : ℕ} (h : offset + w ≤ n) :
    field (bs.take n) offset w = field bs offset w := by
  rw [field, field, List.drop_take, List.take_take, Nat.min_eq_left (by omega)]

/-- One more byte at the low end. -/
theorem field_succ {bs : List UInt8} {offset : ℕ} (h : offset < bs.length) (w : ℕ) :
    field bs offset (w + 1) = bs[offset].toNat + 256 * field bs (offset + 1) w := by
  rw [field, List.drop_eq_getElem_cons h, List.take_succ_cons, number_cons, field]

/-- Fields of the given widths and contents, one after another. -/
def record (fields : List (ℕ × ℕ)) : List UInt8 := fields.flatMap fun f => bytes f.1 f.2

theorem length_record (fields : List (ℕ × ℕ)) :
    (record fields).length = (fields.map Prod.fst).sum := by
  simp [record, List.length_flatMap]

/-- **Every field of a record reads back**, whatever follows the record. -/
theorem field_record {fields : List (ℕ × ℕ)} {i w n : ℕ} (hi : fields[i]? = some (w, n))
    (hn : n < 256 ^ w) (post : List UInt8) :
    field (record fields ++ post) ((fields.take i).map Prod.fst).sum w = n := by
  obtain ⟨hlt, hget⟩ := List.getElem?_eq_some_iff.mp hi
  have hsplit : record fields ++ post =
      record (fields.take i) ++ (bytes w n ++ (record (fields.drop (i + 1)) ++ post)) := by
    have hfields : fields = fields.take i ++ (w, n) :: fields.drop (i + 1) := by
      rw [← hget, ← List.drop_eq_getElem_cons hlt, List.take_append_drop]
    calc record fields ++ post
        = record (fields.take i ++ (w, n) :: fields.drop (i + 1)) ++ post := by rw [← hfields]
      _ = _ := by simp [record]
  rw [hsplit]
  exact field_append (length_record _) hn _

@[simp] theorem field_zero (bs : List UInt8) (offset : ℕ) : field bs offset 0 = 0 := by
  simp [field]

/-- A field is its low part and its high part. -/
theorem field_add {bs : List UInt8} {offset v : ℕ} (h : offset + v ≤ bs.length) (w : ℕ) :
    field bs offset (v + w) = field bs offset v + 256 ^ v * field bs (offset + v) w := by
  induction v generalizing offset with
  | zero => simp
  | succ v ih =>
      have hstep : v + 1 + w = (v + w) + 1 := by omega
      have hnext : offset + 1 + v = offset + (v + 1) := by omega
      rw [hstep, field_succ (by omega), ih (by omega), field_succ (by omega), hnext, pow_succ]
      ring

/-- Or-ing a byte in under the bytes that were shifted in before it. -/
theorem shiftLeft_or_byte (m i : ℕ) (b : UInt8) :
    (m <<< ((i + 1) * 8)) ||| (b.toNat <<< (i * 8)) = (b.toNat + 256 * m) <<< (i * 8) := by
  have hb : b.toNat < 2 ^ 8 := b.toNat_lt
  have hfits : b.toNat <<< (i * 8) < 2 ^ ((i + 1) * 8) := by
    rw [Nat.shiftLeft_eq, add_mul, one_mul, pow_add, mul_comm (2 ^ (i * 8))]
    exact Nat.mul_lt_mul_of_pos_right hb (by positivity)
  rw [← Nat.shiftLeft_add_eq_or_of_lt hfits, Nat.shiftLeft_eq, Nat.shiftLeft_eq, Nat.shiftLeft_eq,
    add_mul i, one_mul, pow_add]
  ring

end LittleEndian
