import CourseDesign.Sensor.Bus
import Mathlib.Logic.Function.Basic

/-!
# An MPU6050 on the bus

A slave that follows the I2C protocol: it takes bits at the rising edges of SCL, moves SDA only
after falling ones, acknowledges in the ninth slot, and shifts the addressed register out, most
significant bit first.  The first byte written after its address is the register pointer.

* `see_pulls` — it changes SDA only while SCL is low.
* `idealRead_mpu6050` — a master that lets SDA go in the slave's slots reads the register it names,
  for every register file and every address.
-/

namespace CourseDesign.Sensor

open I2C

inductive Target where
  | address
  | pointer
  | data
  deriving DecidableEq, Repr

inductive Phase where
  | idle
  | shiftIn (target : Target) (taken : List Bool)
  /-- In the ninth slot, this byte being acknowledged. -/
  | ack (target : Target) (byte : UInt8)
  | shiftOut (left : List Bool)
  /-- In the ninth slot of a byte it has sent. -/
  | masterAck
  deriving DecidableEq, Repr

structure Mpu6050 where
  registers : UInt8 → UInt8
  pointer : UInt8
  last : Level
  phase : Phase
  pulls : Bool

namespace Mpu6050

/-- The next bit of the byte that is sent, if there is one. -/
def sendBit (m : Mpu6050) : List Bool → Mpu6050
  | [] => { m with phase := .masterAck, pulls := false }
  | b :: left => { m with phase := .shiftOut left, pulls := !b }

/-- A rising edge of SCL. -/
def rise (m : Mpu6050) (sda : Bool) : Mpu6050 :=
  match m.phase with
  | .shiftIn target taken => { m with phase := .shiftIn target (taken ++ [sda]) }
  | .masterAck =>
      if sda then { m with phase := .idle }
      else
        { m with
          pointer := m.pointer + 1
          phase := .shiftOut (bits (m.registers (m.pointer + 1))) }
  | _ => m

/-- A falling edge of SCL. -/
def fall (m : Mpu6050) : Mpu6050 :=
  match m.phase with
  | .shiftIn target taken =>
      if taken.length < 8 then { m with pulls := false }
      else if target = .address ∧ ofBits taken ≠ slaveAddress ∧ ofBits taken ≠ slaveAddress + 1
      then { m with phase := .idle, pulls := false }
      else { m with phase := .ack target (ofBits taken), pulls := true }
  | .ack .address byte =>
      if byte = slaveAddress then { m with phase := .shiftIn .pointer [], pulls := false }
      else m.sendBit (bits (m.registers m.pointer))
  | .ack .pointer byte => { m with pointer := byte, phase := .shiftIn .data [], pulls := false }
  | .ack .data byte =>
      { m with
        registers := Function.update m.registers m.pointer byte
        pointer := m.pointer + 1
        phase := .shiftIn .data []
        pulls := false }
  | .shiftOut left => m.sendBit left
  | .idle | .masterAck => { m with pulls := false }

/-- A START or a STOP, or neither. -/
def condition (m : Mpu6050) (sda : Bool) : Mpu6050 :=
  match m.last.sda, sda with
  | true, false => { m with phase := .shiftIn .address [] }
  | false, true => { m with phase := .idle }
  | _, _ => m

def see (level : Level) (m : Mpu6050) : Mpu6050 :=
  let m' := match m.last.scl, level.scl with
    | true, true => m.condition level.sda
    | false, true => m.rise level.sda
    | true, false => m.fall
    | false, false => m
  { m' with last := level }

end Mpu6050

def mpu6050 : Slave Mpu6050 where
  see := Mpu6050.see
  pullsLow := Mpu6050.pulls

/-- **SDA changes only while SCL is low.** -/
theorem see_pulls {level : Level} {m : Mpu6050} (h : level.scl = true) :
    (m.see level).pulls = m.pulls := by
  cases hlast : m.last.scl with
  | true =>
      simp only [Mpu6050.see, hlast, h, Mpu6050.condition]
      split <;> rfl
  | false =>
      simp only [Mpu6050.see, hlast, h, Mpu6050.rise]
      split
      · rfl
      · split <;> rfl
      · rfl

/-! ## A master that lets SDA go -/

section

variable {σ : Type*} (S : Slave σ)

/-- One clock of an open-drain master: what it puts on SDA, and what a receiver finds there. -/
def clockBit (b : Bool) (slave : σ) : Bool × σ :=
  let slave := S.see ⟨false, b && !S.pullsLow slave⟩ slave
  let line := b && !S.pullsLow slave
  let slave := S.see ⟨true, line⟩ slave
  (line, S.see ⟨false, line⟩ slave)

def clockBits : List Bool → σ → List Bool × σ
  | [], slave => ([], slave)
  | b :: bs, slave =>
      let (line, slave) := clockBit S b slave
      let (lines, slave) := clockBits bs slave
      (line :: lines, slave)

/-- A byte that the master sends, with SDA let go in the ninth slot. -/
def clockByte (byte : UInt8) (slave : σ) : σ := (clockBits S (bits byte ++ [true]) slave).2

def startCondition (slave : σ) : σ :=
  slave |> S.see ⟨false, true⟩ |> S.see ⟨true, true⟩ |> S.see ⟨true, false⟩ |> S.see ⟨false, false⟩

/-- A register read as the protocol has it. -/
def idealRead (regAddress : UInt8) (slave : σ) : UInt8 :=
  let slave := slave |> startCondition S
    |> clockByte S slaveAddress
    |> clockByte S regAddress
    |> startCondition S
    |> clockByte S (slaveAddress + 1)
  ofBits (clockBits S (List.replicate 8 true) slave).1

end

/-- A START out of an idle bus. -/
theorem startCondition_idle (registers : UInt8 → UInt8) (pointer : UInt8) :
    startCondition mpu6050 ⟨registers, pointer, ⟨true, true⟩, .idle, false⟩ =
      ⟨registers, pointer, ⟨false, false⟩, .shiftIn .address [], false⟩ := rfl

/-- A repeated START, between two bytes. -/
theorem startCondition_repeated (registers : UInt8 → UInt8) (pointer : UInt8) (x : Bool)
    (target : Target) :
    startCondition mpu6050 ⟨registers, pointer, ⟨false, x⟩, .shiftIn target [], false⟩ =
      ⟨registers, pointer, ⟨false, false⟩, .shiftIn .address [], false⟩ := rfl

theorem clockBits_append {σ : Type*} (S : Slave σ) (as bs : List Bool) (slave : σ) :
    clockBits S (as ++ bs) slave =
      ((clockBits S as slave).1 ++ (clockBits S bs (clockBits S as slave).2).1,
        (clockBits S bs (clockBits S as slave).2).2) := by
  induction as generalizing slave with
  | nil => rfl
  | cons a as ih => simp [clockBits, ih]

variable (registers : UInt8 → UInt8) (pointer : UInt8) (x : Bool) {target : Target}

/-- One of the first seven bits of a byte. -/
theorem clockBit_shiftIn {taken : List Bool} (h : taken.length < 7) (b : Bool) :
    clockBit mpu6050 b ⟨registers, pointer, ⟨false, x⟩, .shiftIn target taken, false⟩ =
      (b, ⟨registers, pointer, ⟨false, b⟩, .shiftIn target (taken ++ [b]), false⟩) := by
  have hlen : taken.length + 1 < 8 := by omega
  simp [clockBit, mpu6050, Mpu6050.see, Mpu6050.rise, Mpu6050.fall, hlen]

/-- The eighth bit: the slave pulls SDA low. -/
theorem clockBit_eighth {taken : List Bool} (h : taken.length = 7) (b : Bool)
    (hbyte : ¬ (target = .address ∧ ofBits (taken ++ [b]) ≠ slaveAddress ∧
      ofBits (taken ++ [b]) ≠ slaveAddress + 1)) :
    clockBit mpu6050 b ⟨registers, pointer, ⟨false, x⟩, .shiftIn target taken, false⟩ =
      (b, ⟨registers, pointer, ⟨false, b⟩, .ack target (ofBits (taken ++ [b])), true⟩) := by
  simp [clockBit, mpu6050, Mpu6050.see, Mpu6050.rise, Mpu6050.fall, h, hbyte]

theorem clockBits_shiftIn {taken ds : List Bool} (h : taken.length + ds.length ≤ 7) :
    ∃ y, (clockBits mpu6050 ds
        ⟨registers, pointer, ⟨false, x⟩, .shiftIn target taken, false⟩).2 =
      ⟨registers, pointer, ⟨false, y⟩, .shiftIn target (taken ++ ds), false⟩ := by
  induction ds generalizing taken x with
  | nil => exact ⟨x, by simp [clockBits]⟩
  | cons d ds ih =>
      rw [List.length_cons] at h
      have hlen : (taken ++ [d]).length + ds.length ≤ 7 := by
        rw [List.length_append, List.length_singleton]
        omega
      obtain ⟨y, hy⟩ := ih d hlen
      have hbit : clockBit mpu6050 d _ = (d, ⟨registers, pointer, ⟨false, d⟩,
          .shiftIn target (taken ++ [d]), false⟩) :=
        clockBit_shiftIn registers pointer x (by omega) d
      refine ⟨y, ?_⟩
      simp only [clockBits, hbit, hy, List.append_assoc, List.singleton_append]

/-- **The slave takes a byte** that it is meant to take, and acknowledges it in the ninth slot. -/
theorem clockByte_shiftIn {byte : UInt8}
    (h : target = .address → byte = slaveAddress ∨ byte = slaveAddress + 1) :
    clockByte mpu6050 byte ⟨registers, pointer, ⟨false, x⟩, .shiftIn target [], false⟩ =
      { (Mpu6050.fall ⟨registers, pointer, ⟨true, false⟩, .ack target byte, true⟩) with
        last := ⟨false, false⟩ } := by
  have hne : bits byte ≠ [] := List.ne_nil_of_length_pos (by simp)
  have hsplit := List.dropLast_append_getLast hne
  have hseven : (bits byte).dropLast.length = 7 := by simp
  have htaken : ofBits ((bits byte).dropLast ++ [(bits byte).getLast hne]) = byte := by
    rw [hsplit, ofBits_bits]
  have hmeant : ¬ (target = .address ∧ byte ≠ slaveAddress ∧ byte ≠ slaveAddress + 1) := by
    rintro ⟨ht, hwrite, hread⟩
    exact (h ht).elim hwrite hread
  obtain ⟨y, hy⟩ : ∃ y, (clockBits mpu6050 (bits byte).dropLast _).2 =
      ⟨registers, pointer, ⟨false, y⟩, .shiftIn target ([] ++ (bits byte).dropLast), false⟩ :=
    clockBits_shiftIn registers pointer x (by simp)
  have height := clockBit_eighth registers pointer y hseven ((bits byte).getLast hne)
    (by rwa [htaken])
  rw [htaken] at height
  rw [clockByte, ← hsplit, List.append_assoc, clockBits_append, hy, List.nil_append]
  simp only [List.singleton_append, clockBits, height]
  rfl

/-- **The slave sends a byte.** -/
theorem clockBits_shiftOut (left : List Bool) (b : Bool) :
    (clockBits mpu6050 (List.replicate (left.length + 1) true)
      ⟨registers, pointer, ⟨false, x⟩, .shiftOut left, !b⟩).1 = b :: left := by
  induction left generalizing b x with
  | nil => cases b <;> rfl
  | cons c left ih =>
      have hbit : clockBit mpu6050 true ⟨registers, pointer, ⟨false, x⟩, .shiftOut (c :: left), !b⟩ =
          (b, ⟨registers, pointer, ⟨false, b⟩, .shiftOut left, !c⟩) := by
        cases b <;> rfl
      rw [List.length_cons, List.replicate_succ]
      simp only [clockBits, hbit, ih]

/-- **The slave follows the protocol**: from an idle bus, a master that lets SDA go in the slave's
slots reads the register it names. -/
theorem idealRead_mpu6050 (regAddress : UInt8) :
    idealRead mpu6050 regAddress ⟨registers, pointer, ⟨true, true⟩, .idle, false⟩ =
      registers regAddress := by
  have hne : slaveAddress + 1 ≠ slaveAddress := by decide
  simp only [idealRead, startCondition_idle]
  rw [clockByte_shiftIn _ _ _ (by simp)]
  simp only [Mpu6050.fall, if_true]
  rw [clockByte_shiftIn _ _ _ (by simp)]
  simp only [Mpu6050.fall, startCondition_repeated]
  rw [clockByte_shiftIn _ _ _ (by simp)]
  simp only [Mpu6050.fall, hne, if_false]
  have hlen : (bits (registers regAddress)).length = 8 := length_bits _
  have hbyte : ofBits (bits (registers regAddress)) = registers regAddress := ofBits_bits _
  cases hbits : bits (registers regAddress) with
  | nil => simp [hbits] at hlen
  | cons b left =>
      rw [hbits, List.length_cons] at hlen
      rw [← hlen, ← hbyte, hbits]
      exact congrArg ofBits (clockBits_shiftOut registers regAddress false left b)

end CourseDesign.Sensor
