import CourseDesign.Sensor.Bus

/-!
# Register writes on the bus

What an I2C receiver makes of the waveform of `Single_Write_MPU6050`.  In the acknowledge slot the
direction bit of SCL is clear: SCL rises because it is let go, and falls when the next
`WriteSDA_0` or `WriteSDA_1` drives it again.  Nothing but a START and a STOP comes of that.

* `Bus.Drives` — the directions, the latches and what the receiver has seen.
* `drives_start`, `drives_sendByte`, `drives_stop` — what each piece of waveform adds to it.
* `writes_decoded` — a sequence of writes is received as the same sequence of transactions.
-/

namespace CourseDesign.Sensor

open I2C Bus

variable {σ : Type*} (S : Slave σ)

/-- The level of SCL: its latch if it is driven, high if it is let go. -/
def sclLine (clock scl : Bool) : Bool := if clock then scl else true

@[simp] theorem sclLine_driven (scl : Bool) : sclLine true scl = scl := rfl

@[simp] theorem sclLine_released (scl : Bool) : sclLine false scl = true := rfl

/-- SDA is driven, SCL is driven if `clock` is set, and the latches are `scl` and `sda`. -/
structure Bus.Latched (s : Bus σ) (clock scl sda : Bool) : Prop where
  p0dir_sda : s.p0dir.getLsbD 7 = true
  p0dir_scl : s.p0dir.getLsbD 6 = clock
  scl_eq : s.scl = scl
  sda_eq : s.sda = sda

/-- And a receiver that has seen the waveform made `t` of it. -/
structure Bus.Drives (s : Bus σ) (clock scl sda : Bool) (t : Transcript) : Prop
    extends s.Latched clock scl sda where
  seen : received s.wave = { last := ⟨sclLine clock scl, sda⟩, transcript := t }

namespace Bus

variable {S} {s : Bus σ} {clock clock' scl scl' sda sda' : Bool} {t : Transcript}

/-- **A statement**: it changes directions or latches, and the receiver sees the lines go from what
they were to what they are. -/
theorem Drives.settle {u : Bus σ} (h : s.Drives clock scl sda t) (hwave : u.wave = s.wave)
    (hu : u.Latched clock' scl' sda') :
    (u.settle S).Drives clock' scl' sda'
      (t.edge ⟨sclLine clock scl, sda⟩ ⟨sclLine clock' scl', sda'⟩) where
  toLatched := { hu with }
  seen := by
    have hlevel : u.level S = ⟨sclLine clock' scl', sda'⟩ := by
      simp only [level, hu.p0dir_scl, hu.p0dir_sda, hu.scl_eq, hu.sda_eq, if_true, sclLine]
    simp only [Bus.settle, hlevel, received_concat, hwave, h.seen, Receiver.feed]

theorem Drives.p0dirOr (h : s.Drives clock scl sda t) (mask : BitVec 8) :
    (s.p0dirOr S mask).Drives (clock || mask.getLsbD 6) scl sda
      (t.edge ⟨sclLine clock scl, sda⟩ ⟨sclLine (clock || mask.getLsbD 6) scl, sda⟩) :=
  h.settle rfl
    { p0dir_sda := by rw [BitVec.getLsbD_or, h.p0dir_sda, Bool.true_or]
      p0dir_scl := by rw [BitVec.getLsbD_or, h.p0dir_scl]
      scl_eq := h.scl_eq
      sda_eq := h.sda_eq }

/-- Setting direction bits other than that of SCL does nothing. -/
theorem Drives.p0dirOr_same (h : s.Drives clock scl sda t) {mask : BitVec 8}
    (hmask : mask.getLsbD 6 = false) : (s.p0dirOr S mask).Drives clock scl sda t := by
  simpa only [hmask, Bool.or_false, Transcript.edge_same] using h.p0dirOr (S := S) mask

/-- `ReadSDA` lets SCL go. -/
theorem Drives.readSDA (h : s.Drives clock scl sda t) :
    (readSDA S s).Drives false scl sda (t.edge ⟨sclLine clock scl, sda⟩ ⟨true, sda⟩) :=
  h.settle rfl
    { p0dir_sda := by
        rw [BitVec.getLsbD_and, h.p0dir_sda]
        rfl
      p0dir_scl := by
        rw [BitVec.getLsbD_and]
        exact Bool.and_false _
      scl_eq := h.scl_eq
      sda_eq := h.sda_eq }

/-- `WriteSDA_0` and `WriteSDA_1` first drive SCL. -/
theorem Drives.writeSDA (h : s.Drives clock scl sda t) (b : Bool) :
    (writeSDA S b s).Drives true scl b
      ((t.edge ⟨sclLine clock scl, sda⟩ ⟨scl, sda⟩).edge ⟨scl, sda⟩ ⟨scl, b⟩) := by
  have hdir := h.p0dirOr (S := S) 0x40
  rw [show (clock || (0x40 : BitVec 8).getLsbD 6) = true from Bool.or_true clock] at hdir
  exact hdir.settle rfl { hdir.toLatched with sda_eq := rfl }

/-- `WriteSCL_0` and `WriteSCL_1` move SCL only while it is driven. -/
theorem Drives.writeSCL (h : s.Drives clock scl sda t) (b : Bool) :
    (writeSCL S b s).Drives clock b sda
      (t.edge ⟨sclLine clock scl, sda⟩ ⟨sclLine clock b, sda⟩) := by
  have hdir := h.p0dirOr_same (S := S) (show (0x80 : BitVec 8).getLsbD 6 = false from rfl)
  exact hdir.settle rfl { hdir.toLatched with scl_eq := rfl }

end Bus

/-! ## The pieces of waveform -/

variable {S} {s : Bus σ} {clock x : Bool} {t : Transcript}

theorem drives_start (h : s.Drives true true true t) :
    (mpu6050Start S s).Drives true false false ((t.move false).emit .start) := by
  have hidle := (h.writeSDA (S := S) true).writeSCL (S := S) true
  simp only [sclLine_driven, Transcript.edge_same] at hidle
  have hstart := (hidle.writeSDA (S := S) false).writeSCL (S := S) false
  simp only [sclLine_driven, Transcript.edge_same, Transcript.edge_start,
    Transcript.edge_fall] at hstart
  exact hstart

/-- One turn of the loop of `MPU6050_SendByte`.  If SCL was let go before, it falls first. -/
theorem drives_bit (h : s.Drives clock false x t) (b : Bool) :
    (writeSCL0 S (writeSCL1 S (writeSDA S b s))).Drives true false b (t.takeBit b) := by
  have hdata : (writeSDA S b s).Drives true false b t := by
    have hwrite := h.writeSDA (S := S) b
    cases clock <;> simpa using hwrite
  have hclock := (hdata.writeSCL (S := S) true).writeSCL (S := S) false
  simp only [sclLine_driven, Transcript.edge_rise, Transcript.edge_fall] at hclock
  exact hclock

theorem sendBits_succ (n : ℕ) (data : UInt8) (s : Bus σ) :
    sendBits S (n + 1) data s = sendBits S n (data <<< 1)
      (writeSCL0 S (writeSCL1 S (writeSDA S (decide (data &&& 0x80 ≠ 0)) s))) := by
  by_cases hd : data &&& 0x80 ≠ 0 <;> simp [sendBits, hd, writeSDA1, writeSDA0]

/-- The loop of `MPU6050_SendByte`: the receiver takes the bits that are shifted out. -/
theorem drives_sendBits (n : ℕ) (data : UInt8) (h : s.Drives clock false x t) :
    ∃ y, (sendBits S (n + 1) data s).Drives true false y
      ((shiftOut (n + 1) data).foldl Transcript.takeBit t) := by
  induction n generalizing data s clock x t with
  | zero =>
      rw [sendBits_succ]
      exact ⟨_, drives_bit h _⟩
  | succ n ih =>
      obtain ⟨y, hy⟩ := ih (data <<< 1) (drives_bit (S := S) h (decide (data &&& 0x80 ≠ 0)))
      rw [sendBits_succ]
      exact ⟨y, hy⟩

/-- **The acknowledge slot**: SCL is let go and stays high, which makes a ninth bit. -/
theorem drives_recvACK (h : s.Drives true false x t) :
    (mpu6050RecvACK S s).2.Drives false false x (t.takeBit x) := by
  have hslot := ((h.readSDA (S := S)).writeSCL (S := S) true).writeSCL (S := S) false
  simp only [sclLine_driven, sclLine_released, Transcript.edge_rise,
    Transcript.edge_same] at hslot
  exact hslot.p0dirOr_same (show (0x00 : BitVec 8).getLsbD 6 = false from rfl)

/-- **A byte on the bus.** -/
theorem drives_sendByte (data : UInt8) (h : s.Drives clock false x t) (ht : t.pending = []) :
    ∃ y, (mpu6050SendByte S data s).Drives false false y (t.emit (.byte data)) := by
  have hout := h.p0dirOr_same (S := S) (show (0x80 : BitVec 8).getLsbD 6 = false from rfl)
  obtain ⟨y, hy⟩ := drives_sendBits (S := S) 7 data hout
  refine ⟨y, ?_⟩
  rw [← t.takeBits_byte ht data y]
  exact drives_recvACK hy

/-- The bit that SCL's rise makes before a STOP is not part of any byte. -/
theorem drives_stop (h : s.Drives clock false x t) (ht : t.pending = []) :
    (mpu6050Stop S s).Drives true true true ((t.move true).emit .stop) := by
  have hlow : (writeSDA S false s).Drives true false false t := by
    have hwrite := h.writeSDA (S := S) false
    cases clock <;> simpa using hwrite
  have hstop := (hlow.writeSCL (S := S) true).writeSDA (S := S) true
  simp only [sclLine_driven, Transcript.edge_rise, Transcript.edge_same,
    Transcript.edge_stop] at hstop
  have hdropped : ((t.takeBit false).move true).emit .stop = (t.move true).emit .stop := by
    simp [Transcript.takeBit, Transcript.move, Transcript.emit, ht]
  rw [hdropped] at hstop
  exact hstop

/-! ## Transactions -/

/-- What a receiver should make of one register write. -/
def transaction (regAddress regData : UInt8) : List Symbol :=
  [.start, .byte slaveAddress, .byte regAddress, .byte regData, .stop]

/-- **Step lemma.**  One call leaves the bus idle again. -/
theorem drives_singleWrite {regAddress regData : UInt8} (h : s.Drives true true true t) :
    (singleWriteMPU6050 S regAddress regData s).Drives true true true
      { pending := []
        symbols := t.symbols ++ transaction regAddress regData
        moves := t.moves ++ [false, true] } := by
  have hstart := drives_start (S := S) h
  obtain ⟨x, haddress⟩ := drives_sendByte (S := S) slaveAddress hstart rfl
  obtain ⟨y, hreg⟩ := drives_sendByte (S := S) regAddress haddress rfl
  obtain ⟨z, hdata⟩ := drives_sendByte (S := S) regData hreg rfl
  have hstop := drives_stop (S := S) hdata rfl
  simp only [Transcript.move, Transcript.emit, List.append_assoc, List.cons_append,
    List.nil_append] at hstop
  exact hstop

/-- **Run lemma.** -/
theorem drives_writes (calls : List (UInt8 × UInt8)) (h : s.Drives true true true t)
    (ht : t.pending = []) :
    (calls.foldl (fun s c => singleWriteMPU6050 S c.1 c.2 s) s).Drives true true true
      { pending := []
        symbols := t.symbols ++ calls.flatMap fun c => transaction c.1 c.2
        moves := t.moves ++ calls.flatMap fun _ => [false, true] } := by
  induction calls generalizing s t with
  | nil =>
      obtain ⟨pending, symbols, moves⟩ := t
      obtain rfl : pending = [] := ht
      simpa using h
  | cons c calls ih =>
      have hfirst : (singleWriteMPU6050 S c.1 c.2 s).Drives true true true _ :=
        drives_singleWrite h
      have hrest := ih hfirst rfl
      simpa [List.append_assoc] using hrest

/-- The port before `Init_IO`, with both latches high and the directions as they happen to be. -/
def Bus.fresh (p0dir : BitVec 8) (slave : σ) : Bus σ :=
  { p0dir := p0dir, scl := true, sda := true, slave := slave, wave := [] }

theorem drives_initIo (p0dir : BitVec 8) (slave : σ) :
    (initIo S (Bus.fresh p0dir slave)).Drives true true true Transcript.empty := by
  have hdirs : ({ Bus.fresh p0dir slave with p0dir := p0dir ||| 0xc0 } : Bus σ).Drives
      true true true Transcript.empty :=
    { p0dir_sda := by
        rw [BitVec.getLsbD_or]
        exact Bool.or_true _
      p0dir_scl := by
        rw [BitVec.getLsbD_or]
        exact Bool.or_true _
      scl_eq := rfl
      sda_eq := rfl
      seen := rfl }
  have hinit := hdirs.settle (S := S) rfl hdirs.toLatched
  rw [Transcript.edge_same] at hinit
  exact hinit

/-- **Register writes appear on the bus as intended.**  For every sequence of calls a receiver
decodes a START, the slave address, the register, the data and a STOP for each, in order; and SDA
moves with SCL high only for these STARTs and STOPs. -/
theorem writes_decoded (S : Slave σ) (p0dir : BitVec 8) (slave : σ) (calls : List (UInt8 × UInt8)) :
    let s := calls.foldl (fun s c => singleWriteMPU6050 S c.1 c.2 s)
      (initIo S (Bus.fresh p0dir slave))
    (received s.wave).transcript.symbols = (calls.flatMap fun c => transaction c.1 c.2) ∧
      (received s.wave).transcript.moves = calls.flatMap fun _ => [false, true] := by
  have hrun := drives_writes (S := S) calls (drives_initIo (S := S) p0dir slave) rfl
  simp only [hrun.seen]
  exact ⟨rfl, rfl⟩

end CourseDesign.Sensor
