import CourseDesign.Lib.LittleEndian
import CourseDesign.Drivers.EventDrv

/-!
# `struct input_event`

The 24 bytes that go through the touch device on a 64-bit little-endian kernel: two words of time,
`type` and `code` of two bytes each, and a signed `value` of four.  The viewer never sets the time,
and the reader never looks at it.
-/

namespace CourseDesign.Drivers

/-- The members that the programs set and test; `value` is a two's complement `int`. -/
structure InputEvent where
  type : BitVec 16
  code : BitVec 16
  value : BitVec 32
  deriving DecidableEq, Repr

/-- The `timeval` in front of them. -/
abbrev TimeBytes := Vector UInt8 16

def InputEvent.bytes (time : TimeBytes) (e : InputEvent) : List UInt8 :=
  time.toList ++ LittleEndian.bytes 2 e.type.toNat ++ LittleEndian.bytes 2 e.code.toNat ++
    LittleEndian.bytes 4 e.value.toNat

/-- What a program finds in the members after `read` filled the structure. -/
def InputEvent.ofBytes (bs : List UInt8) : InputEvent where
  type := BitVec.ofNat 16 (LittleEndian.field bs 16 2)
  code := BitVec.ofNat 16 (LittleEndian.field bs 18 2)
  value := BitVec.ofNat 32 (LittleEndian.field bs 20 4)

@[simp] theorem length_bytes (time : TimeBytes) (e : InputEvent) :
    (e.bytes time).length = sizeofInputEvent := by
  simp [InputEvent.bytes, sizeofInputEvent]

/-- **What was written is what is read**, whatever the time bytes. -/
@[simp] theorem ofBytes_bytes (time : TimeBytes) (e : InputEvent) :
    InputEvent.ofBytes (e.bytes time) = e := by
  have htime : time.toList.length = 16 := by simp
  have htype : LittleEndian.field (e.bytes time) 16 2 = e.type.toNat := by
    rw [InputEvent.bytes, List.append_assoc, List.append_assoc]
    exact LittleEndian.field_append htime e.type.isLt _
  have hcode : LittleEndian.field (e.bytes time) 18 2 = e.code.toNat := by
    rw [InputEvent.bytes, List.append_assoc]
    exact LittleEndian.field_append (by simp) e.code.isLt _
  have hvalue : LittleEndian.field (e.bytes time) 20 4 = e.value.toNat := by
    rw [InputEvent.bytes, ← List.append_nil (LittleEndian.bytes 4 _)]
    exact LittleEndian.field_append (by simp) e.value.isLt _
  simp only [InputEvent.ofBytes, htype, hcode, hvalue, BitVec.ofNat_toNat, BitVec.setWidth_eq]

/-- The event in the slot. -/
def EventState.slot (s : EventState) : InputEvent :=
  InputEvent.ofBytes (s.inputData.load 0 sizeofInputEvent)

theorem slot_store (s : EventState) (time : TimeBytes) (e : InputEvent) :
    InputEvent.ofBytes ((s.inputData.store 0 (e.bytes time)).load 0 sizeofInputEvent) = e := by
  have hload := load_store s.inputData 0 (e.bytes time)
  rw [length_bytes] at hload
  rw [hload, ofBytes_bytes]

end CourseDesign.Drivers
