import CourseDesign.Lib.I2C

/-!
# The bit-banged bus of the MPU6050

`MPU6050.c` from `WriteSDA_0` to `Single_Read_MPU6050`, statement by statement.  SCL is P0.6 and SDA
is P0.7.  A pin whose bit in `P0DIR` is set drives its latch and reads it back; a pin whose bit is
clear is pulled up and reads the line, on which the slave may pull SDA low.

The masks are those of the source: `WriteSDA_0` and `WriteSDA_1` set the direction bit of *SCL*,
`WriteSCL_0` and `WriteSCL_1` that of *SDA*, and `ReadSDA` clears that of *SCL*.  The delays have no
effect on the pins.
-/

namespace CourseDesign.Sensor

/-- A device at the other end: it sees the lines after each statement, and may pull SDA low. -/
structure Slave (σ : Type*) where
  see : I2C.Level → σ → σ
  pullsLow : σ → Bool

/-- The port and the slave.  `wave` records the lines after each statement. -/
structure Bus (σ : Type*) where
  p0dir : BitVec 8
  /-- The latch `P0_6`. -/
  scl : Bool
  /-- The latch `P0_7`. -/
  sda : Bool
  slave : σ
  wave : List I2C.Level

variable {σ : Type*} (S : Slave σ)

namespace Bus

/-- The two lines. -/
def level (s : Bus σ) : I2C.Level where
  scl := if s.p0dir.getLsbD 6 then s.scl else true
  sda := if s.p0dir.getLsbD 7 then s.sda else !S.pullsLow s.slave

/-- The end of a statement: the slave sees the lines. -/
def settle (s : Bus σ) : Bus σ :=
  { s with slave := S.see (s.level S) s.slave, wave := s.wave ++ [s.level S] }

/-- `P0DIR|=mask`. -/
def p0dirOr (mask : BitVec 8) (s : Bus σ) : Bus σ := { s with p0dir := s.p0dir ||| mask }.settle S

/-- `P0DIR&=mask`. -/
def p0dirAnd (mask : BitVec 8) (s : Bus σ) : Bus σ := { s with p0dir := s.p0dir &&& mask }.settle S

/-- `SCL=b`. -/
def setSCL (b : Bool) (s : Bus σ) : Bus σ := { s with scl := b }.settle S

/-- `SDA=b`. -/
def setSDA (b : Bool) (s : Bus σ) : Bus σ := { s with sda := b }.settle S

/-- The value of `SDA` in an expression. -/
def getSDA (s : Bus σ) : Bool := (s.level S).sda

end Bus

/-! ## The helpers -/

open Bus

def writeSDA (b : Bool) (s : Bus σ) : Bus σ := s |> p0dirOr S 0x40 |> setSDA S b

def writeSDA0 : Bus σ → Bus σ := writeSDA S false

def writeSDA1 : Bus σ → Bus σ := writeSDA S true

def writeSCL (b : Bool) (s : Bus σ) : Bus σ := s |> p0dirOr S 0x80 |> setSCL S b

def writeSCL0 : Bus σ → Bus σ := writeSCL S false

def writeSCL1 : Bus σ → Bus σ := writeSCL S true

def readSDA : Bus σ → Bus σ := p0dirAnd S 0xBF

/-- The macro `SDA_OUT`. -/
def sdaOut : Bus σ → Bus σ := p0dirOr S 0x80

/-- `Init_IO`, as far as the directions go. -/
def initIo : Bus σ → Bus σ := p0dirOr S 0xc0

def mpu6050Start (s : Bus σ) : Bus σ :=
  s |> writeSDA1 S |> writeSCL1 S |> writeSDA0 S |> writeSCL0 S

def mpu6050Stop (s : Bus σ) : Bus σ := s |> writeSDA0 S |> writeSCL1 S |> writeSDA1 S

def mpu6050SendACK (ack : Bool) (s : Bus σ) : Bus σ :=
  s |> setSDA S ack |> writeSCL1 S |> writeSCL0 S

def mpu6050RecvACK (s : Bus σ) : Bool × Bus σ :=
  let s := s |> readSDA S |> writeSCL1 S
  let cy := s.getSDA S
  (cy, s |> writeSCL0 S |> p0dirOr S 0x00)

/-- The loop of `MPU6050_SendByte` for the `n` bits that are left. -/
def sendBits : ℕ → UInt8 → Bus σ → Bus σ
  | 0, _, s => s
  | n + 1, data, s =>
      let s := if data &&& 0x80 ≠ 0 then writeSDA1 S s else writeSDA0 S s
      sendBits n (data <<< 1) (s |> writeSCL1 S |> writeSCL0 S)

def mpu6050SendByte (data : UInt8) (s : Bus σ) : Bus σ :=
  (mpu6050RecvACK S (s |> sdaOut S |> sendBits S 8 data)).2

/-- The loop of `MPU6050_RecvByte` for the `n` bits that are left. -/
def recvBits : ℕ → UInt8 → Bus σ → UInt8 × Bus σ
  | 0, dat, s => (dat, s)
  | n + 1, dat, s =>
      let dat := dat <<< 1
      let s := s |> setSCL S true
      let dat := dat ||| (if s.getSDA S then 1 else 0)
      recvBits n dat (s |> setSCL S false)

def mpu6050RecvByte (s : Bus σ) : UInt8 × Bus σ := s |> writeSDA1 S |> recvBits S 8 0

/-! ## Register access -/

def slaveAddress : UInt8 := 0xD0

def singleWriteMPU6050 (regAddress regData : UInt8) (s : Bus σ) : Bus σ :=
  s |> mpu6050Start S
    |> mpu6050SendByte S slaveAddress
    |> mpu6050SendByte S regAddress
    |> mpu6050SendByte S regData
    |> mpu6050Stop S

def singleReadMPU6050 (regAddress : UInt8) (s : Bus σ) : UInt8 × Bus σ :=
  let s := s |> mpu6050Start S
    |> mpu6050SendByte S slaveAddress
    |> mpu6050SendByte S regAddress
    |> mpu6050Start S
    |> mpu6050SendByte S (slaveAddress + 1)
  let (regData, s) := mpu6050RecvByte S s
  (regData, s |> mpu6050SendACK S true |> mpu6050Stop S)

end CourseDesign.Sensor
