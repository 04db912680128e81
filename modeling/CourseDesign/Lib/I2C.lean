import Mathlib.Data.Nat.Notation
import Mathlib.Data.List.Basic

/-!
# What an I2C receiver makes of two lines

A two-wire bus is seen as the levels of SCL and SDA from one moment to the next.  SDA falling while
SCL is high is a START and SDA rising while SCL is high is a STOP; a bit is taken at each rising
edge of SCL, nine of them make a byte, the ninth being the acknowledgement.

* `Transcript.edge` — what one change of the lines adds to what has been received; `moves` records
  every change of SDA that does not happen between two low levels of SCL.
* `Transcript.takeBits_byte` — the nine bits of a byte are received as that byte.
* `received` — what a receiver makes of a whole waveform.
-/

namespace I2C

/-- The two lines at one moment. -/
structure Level where
  scl : Bool
  sda : Bool
  deriving DecidableEq, Repr

inductive Symbol where
  | start
  | byte (b : UInt8)
  | stop
  deriving DecidableEq, Repr

/-- The byte that bits spell, most significant first. -/
def ofBits (bs : List Bool) : UInt8 :=
  (bs.foldl (fun (n : ℕ) (b : Bool) => 2 * n + b.toNat) 0).toUInt8

/-- The first `n` bits that a shift to the left pushes out of a byte. -/
def shiftOut : ℕ → UInt8 → List Bool
  | 0, _ => []
  | n + 1, b => decide (b &&& 0x80 ≠ 0) :: shiftOut n (b <<< 1)

/-- The bits of a byte, most significant first. -/
def bits (b : UInt8) : List Bool := shiftOut 8 b

@[simp] theorem length_bits (b : UInt8) : (bits b).length = 8 := rfl

@[simp] theorem ofBits_bits (b : UInt8) : ofBits (bits b) = b := by
  have hall : ∀ i : Fin 256, ofBits (bits (UInt8.ofNat i)) = UInt8.ofNat i := by decide +kernel
  have hb := hall ⟨b.toNat, b.toNat_lt⟩
  simpa using hb

/-- What has been received: the bits of the byte under way, and the symbols before it. -/
structure Transcript where
  pending : List Bool
  symbols : List Symbol
  /-- Where SDA went, each time it moved with SCL high before or after. -/
  moves : List Bool
  deriving DecidableEq, Repr

namespace Transcript

def empty : Transcript := { pending := [], symbols := [], moves := [] }

/-- A symbol ends whatever byte is under way. -/
def emit (t : Transcript) (s : Symbol) : Transcript :=
  { t with pending := [], symbols := t.symbols ++ [s] }

/-- One rising edge of SCL. -/
def takeBit (t : Transcript) (b : Bool) : Transcript :=
  if t.pending.length = 8 then t.emit (.byte (ofBits t.pending))
  else { t with pending := t.pending ++ [b] }

def move (t : Transcript) (b : Bool) : Transcript := { t with moves := t.moves ++ [b] }

/-- The lines go from one pair of levels to the next. -/
def edge (t : Transcript) (before after : Level) : Transcript :=
  let t := if before.sda ≠ after.sda ∧ (before.scl = true ∨ after.scl = true)
    then t.move after.sda else t
  match before.scl, after.scl with
  | true, true =>
      if before.sda = true ∧ after.sda = false then t.emit .start
      else if before.sda = false ∧ after.sda = true then t.emit .stop
      else t
  | false, true => t.takeBit after.sda
  | _, false => t

variable (t : Transcript)

/-- Nothing happens while the lines stay as they are. -/
@[simp] theorem edge_same (level : Level) : t.edge level level = t := by
  obtain ⟨scl, sda⟩ := level
  cases scl <;> cases sda <;> rfl

/-- SDA may go anywhere while SCL is low. -/
@[simp] theorem edge_low (x y : Bool) : t.edge ⟨false, x⟩ ⟨false, y⟩ = t := by
  simp [edge]

@[simp] theorem edge_fall (x : Bool) : t.edge ⟨true, x⟩ ⟨false, x⟩ = t := by
  simp [edge]

@[simp] theorem edge_rise (x : Bool) : t.edge ⟨false, x⟩ ⟨true, x⟩ = t.takeBit x := by
  simp [edge]

@[simp] theorem edge_start : t.edge ⟨true, true⟩ ⟨true, false⟩ = (t.move false).emit .start := by
  simp [edge]

@[simp] theorem edge_stop : t.edge ⟨true, false⟩ ⟨true, true⟩ = (t.move true).emit .stop := by
  simp [edge]

/-- Bits that do not complete a byte are kept. -/
theorem takeBits_append {bs : List Bool} (h : t.pending.length + bs.length ≤ 8) :
    bs.foldl takeBit t = { t with pending := t.pending ++ bs } := by
  induction bs generalizing t with
  | nil => simp
  | cons b bs ih =>
      rw [List.length_cons] at h
      have hfirst : t.takeBit b = { t with pending := t.pending ++ [b] } := if_neg (by omega)
      have hrest : (t.pending ++ [b]).length + bs.length ≤ 8 := by
        rw [List.length_append, List.length_singleton]
        omega
      rw [List.foldl_cons, hfirst, ih _ hrest]
      simp

/-- **A byte is received**, whatever the acknowledgement. -/
theorem takeBits_byte (h : t.pending = []) (b : UInt8) (ack : Bool) :
    ((bits b).foldl takeBit t).takeBit ack = t.emit (.byte b) := by
  rw [takeBits_append t (by simp [h])]
  simp [takeBit, emit, h]

end Transcript

/-- A receiver: the lines as they were last, and what it has made of them. -/
structure Receiver where
  last : Level
  transcript : Transcript
  deriving DecidableEq, Repr

def Receiver.feed (r : Receiver) (level : Level) : Receiver :=
  { last := level, transcript := r.transcript.edge r.last level }

/-- What a receiver that is switched on with both lines high makes of a waveform. -/
def received (wave : List Level) : Receiver :=
  wave.foldl Receiver.feed { last := ⟨true, true⟩, transcript := Transcript.empty }

theorem received_concat (wave : List Level) (level : Level) :
    received (wave ++ [level]) = (received wave).feed level := by
  rw [received, List.foldl_append]
  rfl

end I2C
