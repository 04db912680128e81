import CourseDesign.Lib.Decimal

/-!
# The sensor end device

From the registers of the MPU6050 to the radio frame: `Multiple_read_MPU6050`, `type_change` and
`SampleApp_SendPointToPointMessage`.  `int` has 16 bits and wraps, `char` is unsigned, and division
truncates towards zero.

* `typeChange_eq` — a value is formatted as its sign and its five digits, with one exception.
* `sendPointToPointMessage_eq` — the frame is the six formatted values and an `X`, whatever was on
  the stack.
-/

namespace CourseDesign.Sensor

/-- The value of an integer in a 16-bit `int`. -/
def int16 (x : ℤ) : ℤ := x.bmod 65536

/-- The value of an integer in a `uint8`. -/
def uint8 (x : ℤ) : UInt8 := UInt8.ofInt x

/-! ## Reading the sensor -/

/-- The globals `accX` to `graZ`. -/
structure Sample where
  accX : ℤ
  accY : ℤ
  accZ : ℤ
  graX : ℤ
  graY : ℤ
  graZ : ℤ
  deriving DecidableEq, Repr

/-- The registers that are read, high byte before low byte (`ACCEL_XOUT_H` to `GYRO_ZOUT_L`). -/
inductive Register where
  | accelXoutH | accelXoutL | accelYoutH | accelYoutL | accelZoutH | accelZoutL
  | gyroXoutH | gyroXoutL | gyroYoutH | gyroYoutL | gyroZoutH | gyroZoutL
  deriving DecidableEq, Repr

/-- `(BUF[i]<<8)|BUF[j]`. -/
def assemble (hi lo : UInt8) : ℤ := int16 (hi.toNat <<< 8 ||| lo.toNat : ℕ)

/-- `Multiple_read_MPU6050`. -/
def multipleReadMPU6050 (singleReadMPU6050 : Register → UInt8) : Sample where
  accX := assemble (singleReadMPU6050 .accelXoutH) (singleReadMPU6050 .accelXoutL)
  accY := assemble (singleReadMPU6050 .accelYoutH) (singleReadMPU6050 .accelYoutL)
  accZ := assemble (singleReadMPU6050 .accelZoutH) (singleReadMPU6050 .accelZoutL)
  graX := assemble (singleReadMPU6050 .gyroXoutH) (singleReadMPU6050 .gyroXoutL)
  graY := assemble (singleReadMPU6050 .gyroYoutH) (singleReadMPU6050 .gyroYoutL)
  graZ := assemble (singleReadMPU6050 .gyroZoutH) (singleReadMPU6050 .gyroZoutL)

/-! ## Building the frame -/

/-- `type_change`: what it leaves in `temp`. -/
def typeChange (num : ℤ) : List UInt8 :=
  let (sign, num) := if num < 0 then (0x2D, int16 (-num)) else (0x2B, num)
  [sign,
    uint8 (num.tdiv 10000 + 0x30),
    uint8 ((num.tmod 10000).tdiv 1000 + 0x30),
    uint8 ((num.tmod 1000).tdiv 100 + 0x30),
    uint8 ((num.tmod 100).tdiv 10 + 0x30),
    uint8 (num.tmod 10 + 0x30)]

/-- `buf[i] = b`; `none` is a write outside the buffer. -/
def store (buf : List UInt8) (i : ℕ) (b : UInt8) : Option (List UInt8) :=
  if i < buf.length then some (buf.set i b) else none

/-- The assignments `buf[i] = temp[j]` for the pairs `(i, j)` in turn. -/
def copyTemp (temp : List UInt8) : List (ℕ × ℕ) → List UInt8 → Option (List UInt8)
  | [], buf => some buf
  | (i, j) :: ijs, buf => do
      let b ← temp[j]?
      let buf ← store buf i b
      copyTemp temp ijs buf

/-- `SampleApp_SendPointToPointMessage`: the payload it passes to `AF_DataRequest`, from a `buf`
that is on the stack and not initialised. -/
def sendPointToPointMessage (s : Sample) (buf : List UInt8) : Option (List UInt8) := do
  let buf ← copyTemp (typeChange s.accX) [(0, 0), (1, 1), (2, 2), (3, 3), (4, 4), (5, 5)] buf
  let buf ← copyTemp (typeChange s.accY) [(6, 0), (7, 1), (8, 2), (9, 3), (10, 4), (11, 5)] buf
  let buf ← copyTemp (typeChange s.accZ) [(12, 0), (13, 1), (14, 2), (15, 3), (16, 4), (17, 5)] buf
  let buf ← copyTemp (typeChange s.graX) [(18, 0), (19, 1), (20, 2), (21, 3), (22, 4), (23, 5)] buf
  let buf ← copyTemp (typeChange s.graY) [(24, 0), (25, 1), (26, 2), (27, 3), (28, 4), (29, 5)] buf
  let buf ← copyTemp (typeChange s.graZ) [(30, 0), (31, 1), (32, 2), (33, 3), (34, 4), (35, 5)] buf
  store buf 36 0x58

/-! ## What the values are -/

/-- The signed value of a big-endian register pair. -/
def bigEndian (hi lo : UInt8) : ℤ :=
  if hi.toNat < 128 then 256 * hi.toNat + lo.toNat else 256 * hi.toNat + lo.toNat - 65536

/-- The six signed values a register file stands for. -/
def axes (regs : Register → UInt8) : List ℤ :=
  [bigEndian (regs .accelXoutH) (regs .accelXoutL), bigEndian (regs .accelYoutH) (regs .accelYoutL),
    bigEndian (regs .accelZoutH) (regs .accelZoutL), bigEndian (regs .gyroXoutH) (regs .gyroXoutL),
    bigEndian (regs .gyroYoutH) (regs .gyroYoutL), bigEndian (regs .gyroZoutH) (regs .gyroZoutL)]

/-- The values of a sample in the order they are sent. -/
def Sample.values (s : Sample) : List ℤ := [s.accX, s.accY, s.accZ, s.graX, s.graY, s.graZ]

theorem assemble_eq (hi lo : UInt8) : assemble hi lo = bigEndian hi lo := by
  have hlo : lo.toNat < 2 ^ 8 := lo.toNat_lt
  have hhi : hi.toNat < 2 ^ 8 := hi.toNat_lt
  rw [assemble, int16, ← Nat.shiftLeft_add_eq_or_of_lt hlo, Nat.shiftLeft_eq, bigEndian]
  push_cast
  split <;> rw [Int.bmod_def] <;> omega

/-- **The globals hold the signed register values.** -/
theorem values_multipleRead (regs : Register → UInt8) :
    (multipleReadMPU6050 regs).values = axes regs := by
  simp only [multipleReadMPU6050, Sample.values, axes, assemble_eq]

theorem bigEndian_range (hi lo : UInt8) : -32768 ≤ bigEndian hi lo ∧ bigEndian hi lo ≤ 32767 := by
  have hlo : lo.toNat < 256 := lo.toNat_lt
  have hhi : hi.toNat < 256 := hi.toNat_lt
  rw [bigEndian]
  split <;> omega

theorem axes_range {regs : Register → UInt8} {v : ℤ} (h : v ∈ axes regs) :
    -32768 ≤ v ∧ v ≤ 32767 := by
  simp only [axes, List.mem_cons, List.not_mem_nil, or_false] at h
  rcases h with rfl | rfl | rfl | rfl | rfl | rfl <;> exact bigEndian_range _ _

/-! ## What `type_change` writes -/

def signByte (v : ℤ) : UInt8 := if v < 0 then 0x2D else 0x2B

theorem uint8_digit (d : ℕ) : uint8 ((d : ℤ) + 0x30) = Decimal.digitByte d := by
  have hmod : (((d : ℤ) + 0x30) % 2 ^ 8).toNat = (0x30 + d) % 2 ^ 8 := by omega
  rw [uint8, UInt8.ofInt, hmod, UInt8.ofNat_mod_size]
  rfl

/-- The five digits of a number of at most five digits. -/
theorem digits_eq_fixed {n : ℕ} (hn : n < 100000) :
    [uint8 ((n : ℤ).tdiv 10000 + 0x30), uint8 (((n : ℤ).tmod 10000).tdiv 1000 + 0x30),
      uint8 (((n : ℤ).tmod 1000).tdiv 100 + 0x30), uint8 (((n : ℤ).tmod 100).tdiv 10 + 0x30),
      uint8 ((n : ℤ).tmod 10 + 0x30)] = Decimal.fixed 5 n := by
  have h0 : (n : ℤ).tdiv 10000 = (n / 10 / 10 / 10 / 10 % 10 : ℕ) := by
    rw [show n / 10 / 10 / 10 / 10 % 10 = n / 10000 by omega]
    exact (Int.ofNat_tdiv n 10000).symm
  have h1 : ((n : ℤ).tmod 10000).tdiv 1000 = (n / 10 / 10 / 10 % 10 : ℕ) := by
    rw [show n / 10 / 10 / 10 % 10 = n % 10000 / 1000 by omega]
    exact (Int.ofNat_tdiv (n % 10000) 1000).symm
  have h2 : ((n : ℤ).tmod 1000).tdiv 100 = (n / 10 / 10 % 10 : ℕ) := by
    rw [show n / 10 / 10 % 10 = n % 1000 / 100 by omega]
    exact (Int.ofNat_tdiv (n % 1000) 100).symm
  have h3 : ((n : ℤ).tmod 100).tdiv 10 = (n / 10 % 10 : ℕ) := by
    rw [show n / 10 % 10 = n % 100 / 10 by omega]
    exact (Int.ofNat_tdiv (n % 100) 10).symm
  have h4 : (n : ℤ).tmod 10 = (n % 10 : ℕ) := (Int.ofNat_tmod n 10).symm
  rw [h0, h1, h2, h3, h4]
  simp only [uint8_digit, Decimal.fixed, List.nil_append, List.cons_append]

/-- **`type_change`.**  A value that can be negated becomes its sign and its five digits. -/
theorem typeChange_eq {v : ℤ} (hlo : -32768 < v) (hhi : v ≤ 32767) :
    typeChange v = signByte v :: Decimal.fixed 5 v.natAbs := by
  have hlt : v.natAbs < 100000 := by omega
  rcases lt_or_ge v 0 with hneg | hpos
  · have habs : int16 (-v) = (v.natAbs : ℤ) := by
      rw [int16, Int.bmod_def]
      omega
    rw [typeChange, if_pos hneg, signByte, if_pos hneg, habs, ← digits_eq_fixed hlt]
  · have habs : v = (v.natAbs : ℤ) := by omega
    rw [typeChange, if_neg (not_lt.mpr hpos), signByte, if_neg (not_lt.mpr hpos),
      ← digits_eq_fixed hlt, ← habs]

/-- The one value that its own negation leaves alone: every digit is below `'0'`. -/
theorem typeChange_min : typeChange (-32768) = [0x2D, 0x2D, 0x2E, 0x29, 0x2A, 0x28] := by
  decide

theorem length_typeChange (v : ℤ) : (typeChange v).length = 6 := rfl

/-! ## The frame -/

/-- The first bytes of a 37-byte buffer are `done`. -/
def Filled (done buf : List UInt8) : Prop := done <+: buf ∧ buf.length = 37

/-- Six assignments to consecutive bytes append `temp` to what is filled. -/
theorem copyTemp_filled {done buf temp : List UInt8} (k : ℕ) (hbuf : Filled done buf)
    (hdone : done.length = k) (htemp : temp.length = 6) (hk : k + 6 ≤ 37) :
    ∃ buf', copyTemp temp [(k, 0), (k + 1, 1), (k + 2, 2), (k + 3, 3), (k + 4, 4), (k + 5, 5)]
        buf = some buf' ∧ Filled (done ++ temp) buf' ∧ (done ++ temp).length = k + 6 := by
  obtain ⟨⟨rest, rfl⟩, hlen⟩ := hbuf
  have hrest : 6 ≤ rest.length := by
    rw [List.length_append] at hlen
    omega
  match temp, htemp, rest, hrest with
  | [a, b, c, d, e, f], _, r0 :: r1 :: r2 :: r3 :: r4 :: r5 :: rest, _ =>
      subst hdone
      refine ⟨done ++ [a, b, c, d, e, f] ++ rest, by simp [copyTemp, store],
        ⟨List.prefix_append _ _, ?_⟩, by simp⟩
      simpa using hlen

/-- **The frame** is the six formatted values and an `X`: every byte of `buf` is assigned. -/
theorem sendPointToPointMessage_eq {buf : List UInt8} (hbuf : buf.length = 37) (s : Sample) :
    sendPointToPointMessage s buf = some ((s.values.map typeChange).flatten ++ [0x58]) := by
  have hfill : Filled [] buf := ⟨List.nil_prefix, hbuf⟩
  have htemp := length_typeChange
  obtain ⟨b0, h0, hf0, hl0⟩ := copyTemp_filled 0 hfill rfl (htemp s.accX) (by omega)
  obtain ⟨b1, h1, hf1, hl1⟩ := copyTemp_filled 6 hf0 hl0 (htemp s.accY) (by omega)
  obtain ⟨b2, h2, hf2, hl2⟩ := copyTemp_filled 12 hf1 hl1 (htemp s.accZ) (by omega)
  obtain ⟨b3, h3, hf3, hl3⟩ := copyTemp_filled 18 hf2 hl2 (htemp s.graX) (by omega)
  obtain ⟨b4, h4, hf4, hl4⟩ := copyTemp_filled 24 hf3 hl3 (htemp s.graY) (by omega)
  obtain ⟨b5, h5, ⟨⟨rest, hb5⟩, hlen⟩, hl5⟩ := copyTemp_filled 30 hf4 hl4 (htemp s.graZ) (by omega)
  simp only [Nat.reduceAdd] at h0 h1 h2 h3 h4 h5
  obtain ⟨r, rfl⟩ : ∃ r, rest = [r] := by
    rw [← List.length_eq_one_iff]
    rw [← hb5, List.length_append, hl5] at hlen
    omega
  have hlast : store b5 36 0x58 = some (([] ++ typeChange s.accX ++ typeChange s.accY ++
      typeChange s.accZ ++ typeChange s.graX ++ typeChange s.graY ++ typeChange s.graZ) ++
      [0x58]) := by
    rw [store, if_pos (by omega), ← hb5, List.set_append_right _ _ (by omega), hl5]
    rfl
  simp only [sendPointToPointMessage, h0, h1, h2, h3, h4, h5, hlast, Option.bind_eq_bind,
    Option.bind_some]
  simp [Sample.values]

end CourseDesign.Sensor
