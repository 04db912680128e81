import Mathlib.Data.List.Basic
import Mathlib.Data.Nat.Notation

/-!
# The coordinator

`SampleApp_MessageMSGCB` of the coordinator: what it passes to `HalUARTWrite` and `HalLedBlink` for
an incoming packet.  The six fields of a sample frame are slices of the packet; a read of
`pkt->cmd.Data` at or after the packet's length is an error that names the index.

* `messageMSGCB_sample` — a frame of six fields and an `X` is printed field by field, in order.
-/

namespace CourseDesign.Sensor

/-- `afIncomingMSGPacket_t`: the cluster and `cmd.Data`, which is `cmd.DataLength` bytes long. -/
structure Packet where
  clusterId : ℕ
  data : List UInt8
  deriving DecidableEq, Repr

/-- One call of the handler. -/
inductive Effect where
  /-- `HalUARTWrite(0, buf, length)`. -/
  | uartWrite (buf : List UInt8)
  /-- `HalLedBlink(led, numBlinks, percent, period)`. -/
  | ledBlink (led numBlinks percent period : ℕ)
  deriving DecidableEq, Repr

def Packet.read (pkt : Packet) (i : ℕ) : Except ℕ UInt8 :=
  match pkt.data[i]? with
  | some b => .ok b
  | none => .error i

/-- The `length` bytes at `&pkt->cmd.Data[i]`. -/
def Packet.slice (pkt : Packet) : ℕ → ℕ → Except ℕ (List UInt8)
  | _, 0 => .ok []
  | i, length + 1 => do
      let b ← pkt.read i
      let bs ← pkt.slice (i + 1) length
      return b :: bs

def gap : Effect := .uartWrite [0x20, 0x20]

/-- The case of one of the two point-to-point clusters; `device` is `"ED1:"` or `"ED2:"`. -/
def printSample (device : List UInt8) (pkt : Packet) : Except ℕ (List Effect) := do
  if (← pkt.read 36) = 0x58 then
    let accX ← pkt.slice 0 6
    let accY ← pkt.slice 6 6
    let accZ ← pkt.slice 12 6
    let graX ← pkt.slice 18 6
    let graY ← pkt.slice 24 6
    let graZ ← pkt.slice 30 6
    return [.uartWrite device, gap, .uartWrite accX, gap, .uartWrite accY, gap, .uartWrite accZ,
      gap, .uartWrite graX, gap, .uartWrite graY, gap, .uartWrite graZ, gap, .uartWrite [0x0A],
      .ledBlink 1 4 50 200]
  else
    return []

/-- The case of `SAMPLEAPP_FLASH_CLUSTERID`, the same in the handler of the end device: `HAL_LED_4`
flashes, and its time is sent low byte first. -/
def flash (pkt : Packet) : Except ℕ (List Effect) := do
  let lo ← pkt.read 1
  let hi ← pkt.read 2
  return [.ledBlink 8 4 50 ((lo.toNat + 256 * hi.toNat) / 4)]

def ed1 : List UInt8 := [0x45, 0x44, 0x31, 0x3A]

def ed2 : List UInt8 := [0x45, 0x44, 0x32, 0x3A]

/-- `SampleApp_MessageMSGCB`, by the cluster numbers of `SampleApp.h`. -/
def messageMSGCB (pkt : Packet) : Except ℕ (List Effect) :=
  match pkt.clusterId with
  | 3 => printSample ed1 pkt
  | 4 => printSample ed2 pkt
  | 2 => flash pkt
  | _ => .ok []

/-! ## A sample frame -/

/-- The six 6-byte fields of a frame. -/
def fields (frame : List UInt8) : List (List UInt8) :=
  (List.range 6).map fun k => (frame.drop (6 * k)).take 6

/-- The calls that print six fields. -/
def sampleLine (device : List UInt8) (fs : List (List UInt8)) : List Effect :=
  .uartWrite device :: fs.flatMap (fun f => [gap, .uartWrite f]) ++
    [gap, .uartWrite [0x0A], .ledBlink 1 4 50 200]

/-- The bytes of the line on the serial port. -/
def lineBytes (effects : List Effect) : List UInt8 :=
  effects.flatMap fun
    | .uartWrite buf => buf
    | .ledBlink .. => []

theorem read_eq {pkt : Packet} {i : ℕ} (h : i < pkt.data.length) : pkt.read i = .ok pkt.data[i] := by
  rw [Packet.read, List.getElem?_eq_getElem h]

theorem slice_eq (pkt : Packet) {i length : ℕ} (h : i + length ≤ pkt.data.length) :
    pkt.slice i length = .ok ((pkt.data.drop i).take length) := by
  induction length generalizing i with
  | zero => simp [Packet.slice]
  | succ length ih =>
      have hi : i < pkt.data.length := by omega
      have hrest : pkt.slice (i + 1) length = .ok ((pkt.data.drop (i + 1)).take length) :=
        ih (by omega)
      rw [List.drop_eq_getElem_cons hi, List.take_succ_cons, Packet.slice, read_eq hi, hrest]
      rfl

/-- Any field of a frame made of 6-byte fields. -/
theorem take_drop_flatten {fs : List (List UInt8)} (hfs : ∀ f ∈ fs, f.length = 6)
    (tail : List UInt8) {k : ℕ} (hk : k < fs.length) :
    ((fs.flatten ++ tail).drop (6 * k)).take 6 = fs[k] := by
  induction fs generalizing k with
  | nil => simp at hk
  | cons f fs ih =>
      have hf : f.length = 6 := hfs f (by simp)
      cases k with
      | zero => simp [hf]
      | succ k =>
          have hrec := ih (fun g hg => hfs g (by simp [hg])) (k := k) (by simpa using hk)
          have hdrop : 6 * (k + 1) = f.length + 6 * k := by omega
          rw [List.flatten_cons, List.append_assoc, hdrop, ← List.drop_drop, List.drop_left, hrec,
            List.getElem_cons_succ]

theorem fields_flatten {fs : List (List UInt8)} (hlen : fs.length = 6)
    (hfs : ∀ f ∈ fs, f.length = 6) (tail : List UInt8) : fields (fs.flatten ++ tail) = fs := by
  apply List.ext_getElem
  · simp [fields, hlen]
  · intro k _ hk
    simpa [fields] using take_drop_flatten hfs tail hk

/-- **A packet of 37 bytes or more** is printed if its byte 36 is an `X`. -/
theorem printSample_of_le {device : List UInt8} {pkt : Packet} (h : 36 < pkt.data.length) :
    printSample device pkt =
      .ok (if pkt.data[36] = 0x58 then sampleLine device (fields pkt.data) else []) := by
  have hslice : ∀ i, i + 6 ≤ 36 → pkt.slice i 6 = .ok ((pkt.data.drop i).take 6) :=
    fun i hi => slice_eq pkt (by omega)
  rw [printSample, read_eq h, hslice 0 (by omega), hslice 6 (by omega), hslice 12 (by omega),
    hslice 18 (by omega), hslice 24 (by omega), hslice 30 (by omega)]
  by_cases hx : pkt.data[36] = 0x58
  · rw [if_pos hx]
    simp only [bind, Except.bind, hx, if_true]
    rfl
  · rw [if_neg hx]
    simp only [bind, Except.bind, hx, if_false]
    rfl

/-- **A frame that ends in `X` is printed whole**: the device, the six fields, the end of line. -/
theorem printSample_eq {device frame : List UInt8} {c : ℕ} (hx : frame[36]? = some 0x58) :
    printSample device ⟨c, frame⟩ = .ok (sampleLine device (fields frame)) := by
  obtain ⟨hlt, hget⟩ := List.getElem?_eq_some_iff.mp hx
  rw [printSample_of_le hlt, if_pos hget]

/-- The two point-to-point clusters print under their device's name. -/
theorem messageMSGCB_sample {frame : List UInt8} (hx : frame[36]? = some 0x58) :
    messageMSGCB ⟨3, frame⟩ = .ok (sampleLine ed1 (fields frame)) ∧
      messageMSGCB ⟨4, frame⟩ = .ok (sampleLine ed2 (fields frame)) :=
  ⟨printSample_eq hx, printSample_eq hx⟩

end CourseDesign.Sensor
