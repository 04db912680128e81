import CourseDesign.Sensor.Mpu6050
import Mathlib.Logic.Function.Iterate

/-!
# Register reads on the bus

`ReadSDA` clears the direction bit of SCL and not that of SDA, and nothing else clears a direction
bit, so SDA is driven from the first `WriteSCL_1` on.  `MPU6050_RecvByte` then reads back its own
latch, which it has just set.

* `driven_sendByte` — after a byte has been sent SDA is driven, wherever it started.
* `singleRead_eq` — so every register reads 0xFF, whatever the slave does.
-/

namespace CourseDesign.Sensor

open Bus

variable {σ : Type*} (S : Slave σ)

/-- The direction bit of SDA is set. -/
def Bus.SdaDriven (s : Bus σ) : Prop := s.p0dir.getLsbD 7 = true

theorem SdaDriven.p0dirOr {s : Bus σ} (h : s.SdaDriven) (mask : BitVec 8) :
    (s.p0dirOr S mask).SdaDriven := by
  have hbit : s.p0dir.getLsbD 7 = true := h
  simp only [SdaDriven, Bus.p0dirOr, settle, BitVec.getLsbD_or, hbit, Bool.true_or]

theorem driven_writeSCL (b : Bool) (s : Bus σ) : (writeSCL S b s).SdaDriven := by
  have hmask : (0x80 : BitVec 8).getLsbD 7 = true := rfl
  simp only [SdaDriven, writeSCL, setSCL, Bus.p0dirOr, settle, BitVec.getLsbD_or, hmask,
    Bool.or_true]

/-- The acknowledge slot after each byte drives SDA, if it was not driven before. -/
theorem driven_sendByte (data : UInt8) (s : Bus σ) : (mpu6050SendByte S data s).SdaDriven :=
  SdaDriven.p0dirOr S (driven_writeSCL S false _) 0x00

/-- The value of a driven pin is its latch. -/
theorem getSDA_driven {s : Bus σ} (h : s.SdaDriven) : s.getSDA S = s.sda := by
  have hbit : s.p0dir.getLsbD 7 = true := h
  simp only [getSDA, level, hbit, if_true]

/-- A turn of the loop of `MPU6050_RecvByte` that finds SDA high. -/
def shiftInOne (dat : UInt8) : UInt8 := dat <<< 1 ||| 1

/-- The loop of `MPU6050_RecvByte` while SDA is driven high. -/
theorem recvBits_driven (n : ℕ) (dat : UInt8) {s : Bus σ} (h : s.SdaDriven) (hsda : s.sda = true) :
    (recvBits S n dat s).1 = shiftInOne^[n] dat := by
  induction n generalizing dat s with
  | zero => rfl
  | succ n ih =>
      have hhigh : (s.setSCL S true).getSDA S = true :=
        (getSDA_driven S (s := s.setSCL S true) h).trans hsda
      rw [Function.iterate_succ_apply]
      simp only [recvBits, hhigh, if_true]
      exact ih _ h hsda

theorem recvByte_driven {s : Bus σ} (h : s.SdaDriven) : (mpu6050RecvByte S s).1 = 0xFF := by
  have hdriven : (writeSDA1 S s).SdaDriven := SdaDriven.p0dirOr S h 0x40
  rw [mpu6050RecvByte, recvBits_driven S 8 0 hdriven rfl]
  decide

/-- **Every register reads 0xFF.** -/
theorem singleRead_eq (regAddress : UInt8) (s : Bus σ) :
    (singleReadMPU6050 S regAddress s).1 = 0xFF :=
  recvByte_driven S (driven_sendByte S (slaveAddress + 1) _)

/-- A slave whose register file can be read off its state. -/
structure RegisterSlave (σ : Type*) extends Slave σ where
  registers : σ → UInt8 → UInt8

/-- **Register read over the bit-banged bus.**  Whatever the slave does, `Single_Read_MPU6050`
returns its byte for a register if and only if that byte is 0xFF. -/
theorem singleRead_eq_register_iff (S : RegisterSlave σ) (regAddress : UInt8) (s : Bus σ) :
    (singleReadMPU6050 S.toSlave regAddress s).1 = S.registers s.slave regAddress ↔
      S.registers s.slave regAddress = 0xFF := by
  rw [singleRead_eq, eq_comm]

/-- An MPU6050 with 0x68 in `WHO_AM_I` and zeros elsewhere, on an idle bus. -/
def whoAmI : Mpu6050 where
  registers r := if r = 0x75 then 0x68 else 0
  pointer := 0
  last := ⟨true, true⟩
  phase := .idle
  pulls := false

/-- **`WHO_AM_I` reads 0xFF.**  The slave follows the protocol: a master that lets SDA go reads
0x68. -/
theorem whoAmI_misread :
    idealRead mpu6050 0x75 whoAmI = 0x68 ∧
      (singleReadMPU6050 mpu6050 0x75
        (initIo mpu6050 ⟨0, true, true, whoAmI, []⟩)).1 = 0xFF ∧
      ¬ ∀ (regAddress : UInt8) (s : Bus Mpu6050),
        (singleReadMPU6050 mpu6050 regAddress s).1 = s.slave.registers regAddress := by
  refine ⟨idealRead_mpu6050 _ _ 0x75, singleRead_eq _ _ _, fun hall => ?_⟩
  have hread := hall 0x75 ⟨0, true, true, whoAmI, []⟩
  rw [singleRead_eq] at hread
  exact absurd hread (by decide)

end CourseDesign.Sensor
