import Mathlib.Data.List.Basic
import Mathlib.Data.Nat.Notation

/-!
# Copies between a driver and its caller

`copy_to_user` and `copy_from_user` as the kernel documents them.  Both may stop at a byte of the
caller's memory that is not there; `moved` is the number of bytes they got to.  `copy_from_user`
then fills the rest of the destination with zeros, so it writes the whole count in any case.

Kernel memory is seen from the start of one object on, as a function of the offset; what lies at or
after the object's size is not the driver's.

Where the compiler knows the size of that object, a copy of more bytes is refused as a whole
(`check_copy_size` of the kernel's headers, compiled into the driver).  This is part of the driver
that names the object; a pointer to allocated memory is not checked.
-/

namespace CourseDesign.Drivers

/-- Kernel memory from the start of an object on. -/
abbrev Memory := ℕ → UInt8

/-- The `n` bytes at `base`. -/
def Memory.load (mem : Memory) (base n : ℕ) : List UInt8 :=
  (List.range n).map fun i => mem (base + i)

/-- Memory after `bytes` were written at `base`. -/
def Memory.store (mem : Memory) (base : ℕ) (bytes : List UInt8) : Memory := fun i =>
  if base ≤ i then (bytes[i - base]?).getD (mem i) else mem i

/-- What `copy_from_user` writes for the caller's `buf`, of which it could read `moved` bytes. -/
def copyFromUser (buf : List UInt8) (moved : ℕ) : List UInt8 :=
  buf.take moved ++ List.replicate (buf.length - moved) 0

/-- One copy: the kernel bytes it touched, out of an object of `objectBytes` bytes, and the bytes of
the caller's buffer it touched, out of the `count` the caller named. -/
structure Copy where
  kernelFrom : ℕ
  kernelBytes : ℕ
  objectBytes : ℕ
  userBytes : ℕ
  count : ℕ
  deriving DecidableEq, Repr

/-- Every byte of the copy lies inside the driver's object and inside the caller's buffer. -/
def Copy.InBounds (c : Copy) : Prop :=
  (c.kernelBytes = 0 ∨ c.kernelFrom + c.kernelBytes ≤ c.objectBytes) ∧ c.userBytes ≤ c.count

instance (c : Copy) : Decidable c.InBounds :=
  inferInstanceAs (Decidable (_ ∧ _))

@[simp] theorem length_load (mem : Memory) (base n : ℕ) : (mem.load base n).length = n := by
  simp [Memory.load]

/-- A copy that did not stop early writes what the caller passed. -/
@[simp] theorem copyFromUser_self (buf : List UInt8) : copyFromUser buf buf.length = buf := by
  simp [copyFromUser]

/-- Memory after a copy: the copied bytes, and the others as they were. -/
theorem store_load_apply (mem source : Memory) (dst src n i : ℕ) :
    mem.store dst (source.load src n) i =
      if dst ≤ i ∧ i < dst + n then source (src + (i - dst)) else mem i := by
  rw [Memory.store]
  by_cases hlow : dst ≤ i
  · by_cases hhigh : i < dst + n
    · have hlt : i - dst < n := by omega
      simp [Memory.load, hlow, hhigh, hlt]
    · have hge : n ≤ i - dst := by omega
      simp [Memory.load, hlow, hhigh, hge]
  · simp [hlow]

/-- What was stored is what is loaded. -/
theorem load_store (mem : Memory) (base : ℕ) (bytes : List UInt8) :
    (mem.store base bytes).load base bytes.length = bytes := by
  apply List.ext_getElem (by simp)
  intro i _ hi
  simp [Memory.load, Memory.store, hi]

theorem load_add (mem : Memory) (base m n : ℕ) :
    mem.load base (m + n) = mem.load base m ++ mem.load (base + m) n := by
  simp only [Memory.load, List.range_add, List.map_append, List.map_map, Function.comp_def,
    Nat.add_assoc]

/-- What lies below a store is not changed by it. -/
theorem load_store_below (mem : Memory) {base n : ℕ} (bytes : List UInt8) (h : n ≤ base) :
    (mem.store base bytes).load 0 n = mem.load 0 n := by
  refine List.map_congr_left fun i hi => ?_
  have hlt := List.mem_range.mp hi
  rw [Nat.zero_add, Memory.store, if_neg (by omega)]

/-- A store at the end of what was stored before extends it. -/
theorem load_store_append (mem : Memory) (base : ℕ) (bytes : List UInt8) :
    (mem.store base bytes).load 0 (base + bytes.length) = mem.load 0 base ++ bytes := by
  rw [load_add, load_store_below mem bytes (Nat.le_refl base), Nat.zero_add, load_store]

end CourseDesign.Drivers
