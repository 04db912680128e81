import CourseDesign.Lib.Machine
import CourseDesign.Drivers.UserCopy
import Mathlib.Algebra.Ring.Int.Defs

/-!
# The virtual touch device

`event_drv.c`: one `input_event` slot `inputData` and a counter `have_data`, shared by any number of
calls of `ubuntu_event_open`, `ubuntu_event_read` and `ubuntu_event_write`.  A call is split at the
points where another one can get in between: the wait, the copy, the counter.  Calls of one kind
that have got equally far are alike, so the state counts them.

The compiler knows the size of `inputData`, so a copy of more than its 24 bytes moves nothing and
fails: `event_drv.ko` compares the count with 24 before it calls the copy routine.  `have_data` is
an `int`, which the kernel's compiler options let wrap.

The logs `written`, `delivered` and `copies` are read by no statement of the source.
-/

namespace CourseDesign.Drivers

/-- `sizeof(struct input_event)` on a 64-bit kernel. -/
def sizeofInputEvent : ℕ := 24

/-- The globals of the driver and the calls in flight. -/
structure EventState where
  /-- Memory from `&inputData` on. -/
  inputData : Memory
  haveData : BitVec 32
  /-- Readers past `wait_event_interruptible`. -/
  ready : ℕ
  /-- Readers past a successful `copy_to_user`. -/
  copied : ℕ
  /-- Writers past a successful `copy_from_user`. -/
  stored : ℕ
  /-- The events of the successful writes, in the order of their copies. -/
  written : List (List UInt8)
  /-- What the successful reads returned, in the order of their copies. -/
  delivered : List (List UInt8)
  copies : List Copy

/-- One step of some call. -/
inductive EventAction where
  | open
  /-- `wait_event_interruptible` ends, by a signal or because `have_data` is not zero. -/
  | readWait (signal : Bool)
  | readCopy (count moved : ℕ)
  /-- `have_data -=1` and return. -/
  | readCount
  | writeCopy (buf : List UInt8) (moved : ℕ)
  /-- `have_data +=1`, the wake-up and return. -/
  | writeCount
  deriving DecidableEq, Repr

open Machine (when)

/-- `copy_to_user(buf,&inputData,count)`; when it fails the read returns `-EFAULT`. -/
def EventState.copyOut (s : EventState) (count moved : ℕ) : EventState :=
  let s := { s with ready := s.ready - 1 }
  if sizeofInputEvent < count then s
  else
    let s := { s with copies := s.copies ++ [⟨0, moved, sizeofInputEvent, moved, count⟩] }
    if moved < count then s
    else { s with copied := s.copied + 1, delivered := s.delivered ++ [s.inputData.load 0 moved] }

/-- `copy_from_user(&inputData,buf,count)`; when it fails the write returns `-EFAULT`. -/
def EventState.copyIn (s : EventState) (buf : List UInt8) (moved : ℕ) : EventState :=
  if sizeofInputEvent < buf.length then s
  else
    let s := { s with
      inputData := s.inputData.store 0 (copyFromUser buf moved)
      copies := s.copies ++ [⟨0, buf.length, sizeofInputEvent, moved, buf.length⟩] }
    if moved < buf.length then s
    else { s with stored := s.stored + 1, written := s.written ++ [buf] }

/-- The driver after `ubuntu_event_init`, with nobody in it. -/
def eventDrv : Machine EventState EventAction where
  init :=
    { inputData := fun _ => 0, haveData := 0, ready := 0, copied := 0, stored := 0, written := [],
      delivered := [], copies := [] }
  step s
    | .open => some
        { s with inputData := s.inputData.store 0 (List.replicate sizeofInputEvent 0) }
    | .readWait signal => when (signal = true ∨ s.haveData ≠ 0) { s with ready := s.ready + 1 }
    | .readCopy count moved => when (0 < s.ready ∧ moved ≤ count) (s.copyOut count moved)
    | .readCount => when (0 < s.copied)
        { s with copied := s.copied - 1, haveData := s.haveData - 1 }
    | .writeCopy buf moved => when (moved ≤ buf.length) (s.copyIn buf moved)
    | .writeCount => when (0 < s.stored)
        { s with stored := s.stored - 1, haveData := s.haveData + 1 }

/-! ## Counting in an `int` -/

theorem toInt_succ {x : BitVec 32} (h : x.toInt < 2 ^ 31 - 1) : (x + 1).toInt = x.toInt + 1 := by
  have hlow := x.le_toInt
  rw [BitVec.toInt_add, show (1 : BitVec 32).toInt = 1 from rfl]
  exact Int.bmod_eq_of_le (by omega) (by omega)

theorem toInt_pred {x : BitVec 32} (h : -2 ^ 31 < x.toInt) : (x - 1).toInt = x.toInt - 1 := by
  have hhigh : x.toInt < 2 ^ 31 := x.toInt_lt
  rw [BitVec.toInt_sub, show (1 : BitVec 32).toInt = 1 from rfl]
  exact Int.bmod_eq_of_le (by omega) (by omega)

/-! ## What a copy does -/

/-- A copy to the caller is refused or stops early, or it moves the whole count. -/
theorem EventState.copyOut_cases (s : EventState) {count moved : ℕ} (hmoved : moved ≤ count) :
    (∃ copies, s.copyOut count moved = { s with ready := s.ready - 1, copies := copies }) ∨
      moved = count ∧ s.copyOut count moved =
        { s with
          ready := s.ready - 1
          copied := s.copied + 1
          delivered := s.delivered ++ [s.inputData.load 0 moved]
          copies := s.copies ++ [⟨0, moved, sizeofInputEvent, moved, count⟩] } := by
  rw [EventState.copyOut]
  by_cases hrefused : sizeofInputEvent < count
  · exact Or.inl ⟨s.copies, if_pos hrefused⟩
  · rw [if_neg hrefused]
    by_cases hstopped : moved < count
    · rw [if_pos hstopped]
      exact Or.inl ⟨_, rfl⟩
    · rw [if_neg hstopped]
      exact Or.inr ⟨by omega, rfl⟩

theorem EventState.copyOut_whole (s : EventState) {count : ℕ} (h : count ≤ sizeofInputEvent) :
    s.copyOut count count =
      { s with
        ready := s.ready - 1
        copied := s.copied + 1
        delivered := s.delivered ++ [s.inputData.load 0 count]
        copies := s.copies ++ [⟨0, count, sizeofInputEvent, count, count⟩] } := by
  rw [EventState.copyOut, if_neg (not_lt.mpr h), if_neg (lt_irrefl _)]

/-- A copy from the caller is refused or stops early, or it moves the whole count. -/
theorem EventState.copyIn_cases (s : EventState) {buf : List UInt8} {moved : ℕ}
    (hmoved : moved ≤ buf.length) :
    (∃ inputData copies, s.copyIn buf moved = { s with inputData := inputData, copies := copies }) ∨
      moved = buf.length ∧ s.copyIn buf moved =
        { s with
          inputData := s.inputData.store 0 (copyFromUser buf moved)
          stored := s.stored + 1
          written := s.written ++ [buf]
          copies := s.copies ++ [⟨0, buf.length, sizeofInputEvent, moved, buf.length⟩] } := by
  rw [EventState.copyIn]
  by_cases hrefused : sizeofInputEvent < buf.length
  · exact Or.inl ⟨s.inputData, s.copies, if_pos hrefused⟩
  · rw [if_neg hrefused]
    by_cases hstopped : moved < buf.length
    · rw [if_pos hstopped]
      exact Or.inl ⟨_, _, rfl⟩
    · rw [if_neg hstopped]
      exact Or.inr ⟨by omega, rfl⟩

theorem EventState.copyIn_whole (s : EventState) {buf : List UInt8}
    (h : buf.length ≤ sizeofInputEvent) :
    s.copyIn buf buf.length =
      { s with
        inputData := s.inputData.store 0 buf
        stored := s.stored + 1
        written := s.written ++ [buf]
        copies := s.copies ++ [⟨0, buf.length, sizeofInputEvent, buf.length, buf.length⟩] } := by
  rw [EventState.copyIn, if_neg (not_lt.mpr h), if_neg (lt_irrefl _), copyFromUser_self]

end CourseDesign.Drivers
