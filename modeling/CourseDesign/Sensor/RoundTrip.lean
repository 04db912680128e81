import CourseDesign.Sensor.EndDevice
import CourseDesign.Sensor.Coordinator

/-!
# From register bytes to the coordinator's line

The frame of the end device, read back as the coordinator slices it.

* `readSigned_typeChange` — a formatted value reads back, unless it is the least one.
* `roundTrips_iff_no_min` — a sample survives the round trip if and only if no axis is at -32768;
  and in any case two different samples never print the same line.
-/

namespace CourseDesign.Sensor

/-- A sign and five decimal digits. -/
structure IsField (f : List UInt8) : Prop where
  sign : f.head? = some 0x2B ∨ f.head? = some 0x2D
  width : f.length = 6
  digits : ∀ b ∈ f.tail, Decimal.IsDigit b

/-- Read a field as a signed decimal. -/
def readSigned (f : List UInt8) : ℤ :=
  if f.head? = some 0x2D then -(Decimal.readDigits f.tail) else Decimal.readDigits f.tail

/-- A frame carries these values, and the coordinator prints its fields in their order. -/
structure RoundTrips (values : List ℤ) (frame : List UInt8) : Prop where
  width : frame.length = 37
  ends : frame[36]? = some 0x58
  wellFormed : ∀ f ∈ fields frame, IsField f
  values : (fields frame).map readSigned = values
  printed : messageMSGCB ⟨3, frame⟩ = .ok (sampleLine ed1 (fields frame))

/-- The line the coordinator prints for the sample in a register file. -/
def report (regs : Register → UInt8) (buf : List UInt8) : Option (List UInt8) := do
  let frame ← sendPointToPointMessage (multipleReadMPU6050 regs) buf
  let effects ← (messageMSGCB ⟨3, frame⟩).toOption
  return lineBytes effects

/-! ## One value -/

theorem isField_typeChange {v : ℤ} (hlo : -32768 < v) (hhi : v ≤ 32767) :
    IsField (typeChange v) := by
  rw [typeChange_eq hlo hhi]
  refine ⟨?_, by simp [Decimal.length_fixed], fun b hb => Decimal.isDigit_of_mem_fixed hb⟩
  rw [List.head?_cons, signByte]
  split
  · exact Or.inr rfl
  · exact Or.inl rfl

/-- **A formatted value reads back.** -/
theorem readSigned_typeChange {v : ℤ} (hlo : -32768 < v) (hhi : v ≤ 32767) :
    readSigned (typeChange v) = v := by
  have hlt : v.natAbs < 10 ^ 5 := by omega
  rw [typeChange_eq hlo hhi, readSigned, List.head?_cons, List.tail_cons,
    Decimal.readDigits_fixed hlt, signByte]
  rcases lt_or_ge v 0 with hneg | hpos
  · rw [if_pos hneg, if_pos rfl]
    omega
  · rw [if_neg (not_lt.mpr hpos), if_neg (by decide)]
    omega

theorem not_isField_typeChange_min : ¬ IsField (typeChange (-32768)) := by
  intro h
  have hdigit := h.digits 0x2D (by rw [typeChange_min]; simp)
  have hge : 0x30 ≤ (0x2D : UInt8).toNat := hdigit.1
  exact absurd hge (by decide)

/-- Different 16-bit values are formatted differently, the least one included. -/
theorem typeChange_injOn {v w : ℤ} (hv : -32768 ≤ v ∧ v ≤ 32767) (hw : -32768 ≤ w ∧ w ≤ 32767)
    (h : typeChange v = typeChange w) : v = w := by
  rcases eq_or_lt_of_le hv.1 with rfl | hv'
  · rcases eq_or_lt_of_le hw.1 with rfl | hw'
    · rfl
    · exact absurd (h ▸ isField_typeChange hw' hw.2) not_isField_typeChange_min
  · rcases eq_or_lt_of_le hw.1 with rfl | hw'
    · exact absurd (h ▸ isField_typeChange hv' hv.2) not_isField_typeChange_min
    · rw [← readSigned_typeChange hv' hv.2, h, readSigned_typeChange hw' hw.2]

theorem map_typeChange_injective {vs ws : List ℤ} (hvs : ∀ v ∈ vs, -32768 ≤ v ∧ v ≤ 32767)
    (hws : ∀ w ∈ ws, -32768 ≤ w ∧ w ≤ 32767) (h : vs.map typeChange = ws.map typeChange) :
    vs = ws := by
  induction vs generalizing ws with
  | nil => exact (List.map_eq_nil_iff.mp h.symm).symm
  | cons v vs ih =>
      cases ws with
      | nil => simp at h
      | cons w ws =>
          obtain ⟨hhead, htail⟩ := List.cons.inj h
          rw [typeChange_injOn (hvs v (by simp)) (hws w (by simp)) hhead,
            ih (fun x hx => hvs x (by simp [hx])) (fun x hx => hws x (by simp [hx])) htail]

/-! ## The frame -/

def frameOf (regs : Register → UInt8) : List UInt8 :=
  ((axes regs).map typeChange).flatten ++ [0x58]

theorem fields_frameOf (regs : Register → UInt8) :
    fields (frameOf regs) = (axes regs).map typeChange := by
  refine fields_flatten rfl (fun f hf => ?_) _
  obtain ⟨v, -, rfl⟩ := List.mem_map.mp hf
  exact length_typeChange v

theorem frameOf_sent {buf : List UInt8} (hbuf : buf.length = 37) (regs : Register → UInt8) :
    sendPointToPointMessage (multipleReadMPU6050 regs) buf = some (frameOf regs) := by
  rw [sendPointToPointMessage_eq hbuf, values_multipleRead, frameOf]

theorem frameOf_ends (regs : Register → UInt8) :
    (frameOf regs).length = 37 ∧ (frameOf regs)[36]? = some 0x58 :=
  ⟨rfl, rfl⟩

/-- A field that is not one shows the least value, and the least value shows no field. -/
theorem isField_iff {v : ℤ} (hlo : -32768 ≤ v) (hhi : v ≤ 32767) :
    IsField (typeChange v) ↔ v ≠ -32768 := by
  constructor
  · rintro h rfl
    exact not_isField_typeChange_min h
  · intro hne
    exact isField_typeChange (lt_of_le_of_ne hlo (Ne.symm hne)) hhi

/-- The frame round trips exactly when no axis is at the least value. -/
theorem roundTrips_frameOf (regs : Register → UInt8) :
    RoundTrips (axes regs) (frameOf regs) ↔ ∀ v ∈ axes regs, v ≠ -32768 := by
  obtain ⟨hwidth, hends⟩ := frameOf_ends regs
  constructor
  · intro h v hv
    obtain ⟨hlo, hhi⟩ := axes_range hv
    refine (isField_iff hlo hhi).mp (h.wellFormed _ ?_)
    rw [fields_frameOf]
    exact List.mem_map_of_mem hv
  · intro hne
    refine ⟨hwidth, hends, fun f hf => ?_, ?_, (messageMSGCB_sample hends).1⟩
    · rw [fields_frameOf] at hf
      obtain ⟨v, hv, rfl⟩ := List.mem_map.mp hf
      obtain ⟨hlo, hhi⟩ := axes_range hv
      exact (isField_iff hlo hhi).mpr (hne v hv)
    · rw [fields_frameOf, List.map_map]
      refine (List.map_congr_left fun v hv => ?_).trans (List.map_id _)
      obtain ⟨hlo, hhi⟩ := axes_range hv
      exact readSigned_typeChange (lt_of_le_of_ne hlo (Ne.symm (hne v hv))) hhi

/-! ## The line -/

theorem report_eq {buf : List UInt8} (hbuf : buf.length = 37) (regs : Register → UInt8) :
    report regs buf = some (lineBytes (sampleLine ed1 ((axes regs).map typeChange))) := by
  obtain ⟨hwidth, hends⟩ := frameOf_ends regs
  rw [report, frameOf_sent hbuf]
  simp only [Option.bind_eq_bind, Option.bind_some, (messageMSGCB_sample hends).1,
    fields_frameOf]
  rfl

/-- The fields of a line are read off it by their positions. -/
theorem eq_of_spaced_eq {fs gs : List (List UInt8)} (hfs : ∀ f ∈ fs, f.length = 6)
    (hgs : ∀ g ∈ gs, g.length = 6) (hlen : fs.length = gs.length) (tail : List UInt8)
    (h : fs.flatMap (fun f => [0x20, 0x20] ++ f) ++ tail =
      gs.flatMap (fun g => [0x20, 0x20] ++ g) ++ tail) : fs = gs := by
  induction fs generalizing gs with
  | nil => exact (List.length_eq_zero_iff.mp hlen.symm).symm
  | cons f fs ih =>
      cases gs with
      | nil => simp at hlen
      | cons g gs =>
          have hf : f.length = 6 := hfs f (by simp)
          have hg : g.length = 6 := hgs g (by simp)
          simp only [List.flatMap_cons, List.append_assoc, List.append_cancel_left_eq] at h
          obtain ⟨rfl, hrest⟩ := List.append_inj h (hf.trans hg.symm)
          have hrec : fs = gs := ih (fun x hx => hfs x (by simp [hx]))
            (fun x hx => hgs x (by simp [hx])) (by simpa using hlen) hrest
          rw [hrec]

theorem lineBytes_sampleLine (fs : List (List UInt8)) :
    lineBytes (sampleLine ed1 fs) =
      ed1 ++ (fs.flatMap (fun f => [0x20, 0x20] ++ f) ++ [0x20, 0x20, 0x0A]) := by
  have hbody : lineBytes (fs.flatMap fun f => [gap, .uartWrite f]) =
      fs.flatMap fun f => [0x20, 0x20] ++ f := by
    simp [lineBytes, gap, List.flatMap_assoc]
  rw [← hbody]
  simp [sampleLine, lineBytes, gap]

/-- **Round trip, exactly.**  For every twelve register bytes the end device sends a frame; it ends
in `X`, consists of a sign and five digits per axis, reads back as the six signed big-endian values
and is printed field by field in their order, if and only if none of these values is -32768.  Two
register files with the same line stand for the same sample, whatever their values. -/
theorem roundTrips_iff_no_min (regs : Register → UInt8) {buf : List UInt8}
    (hbuf : buf.length = 37) :
    (∃ frame, sendPointToPointMessage (multipleReadMPU6050 regs) buf = some frame ∧
        (RoundTrips (axes regs) frame ↔ ∀ v ∈ axes regs, v ≠ -32768)) ∧
      ∀ (regs' : Register → UInt8) (buf' : List UInt8), buf'.length = 37 →
        report regs buf = report regs' buf' → axes regs = axes regs' := by
  refine ⟨⟨frameOf regs, frameOf_sent hbuf regs, roundTrips_frameOf regs⟩, ?_⟩
  intro regs' buf' hbuf' hline
  rw [report_eq hbuf, report_eq hbuf', Option.some.injEq, lineBytes_sampleLine,
    lineBytes_sampleLine, List.append_cancel_left_eq] at hline
  have hwidth : ∀ r : Register → UInt8, ∀ f ∈ (axes r).map typeChange, f.length = 6 := by
    intro r f hf
    obtain ⟨v, -, rfl⟩ := List.mem_map.mp hf
    exact length_typeChange v
  have hlen : ((axes regs).map typeChange).length = ((axes regs').map typeChange).length := by
    simp [axes]
  have hfields := eq_of_spaced_eq (hwidth regs) (hwidth regs') hlen _ hline
  exact map_typeChange_injective (fun v hv => axes_range hv) (fun v hv => axes_range hv) hfields

/-- One axis at its least value, the others at zero. -/
def leastX : Register → UInt8
  | .accelXoutH => 0x80
  | _ => 0

/-- Its field is `--.)*(`. -/
theorem least_value_is_garbled :
    ∃ frame,
      sendPointToPointMessage (multipleReadMPU6050 leastX) (List.replicate 37 0) = some frame ∧
      (fields frame)[0]? = some [0x2D, 0x2D, 0x2E, 0x29, 0x2A, 0x28] ∧
      ¬ RoundTrips (axes leastX) frame := by
  refine ⟨frameOf leastX, frameOf_sent (by simp) leastX, ?_, fun h => ?_⟩
  · rw [fields_frameOf]
    decide
  · exact (roundTrips_frameOf leastX).mp h (-32768) (by decide) rfl

/-- The neighbouring value, -32767, round trips. -/
theorem next_to_least_roundTrips :
    let regs : Register → UInt8 := fun
      | .accelXoutH => 0x80
      | .accelXoutL => 1
      | _ => 0
    ∃ frame, sendPointToPointMessage (multipleReadMPU6050 regs) (List.replicate 37 0) = some frame ∧
      RoundTrips (axes regs) frame := by
  intro regs
  have hbuf : (List.replicate 37 (0 : UInt8)).length = 37 := by simp
  obtain ⟨⟨frame, hsent, hiff⟩, -⟩ := roundTrips_iff_no_min regs hbuf
  exact ⟨frame, hsent, hiff.mpr (by decide)⟩

end CourseDesign.Sensor
