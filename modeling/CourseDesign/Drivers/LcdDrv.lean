import CourseDesign.Lib.Machine
import CourseDesign.Drivers.UserCopy
import Mathlib.Algebra.Group.Nat.Defs

/-!
# The virtual LCD

`mmp_drv.c`: `ubuntu_lcd_open`, `ubuntu_lcd_read` and `ubuntu_lcd_write` over `virt_mem`, which
`ubuntu_lcd_init` allocated, and `pos`, which only grows.  Calls run one after another.

* `pos_exec` — `pos` is the number of bytes of all successful writes of all callers.
-/

namespace CourseDesign.Drivers

/-- `page_size`, the size of `virt_mem`: `vinfo.xres*vinfo.yres*vinfo.bits_per_pixel/8`. -/
def pageSize : ℕ := 800 * 480 * 32 / 8

/-- The text in `bufrh` (`"hello drv test!"`). -/
def bufrh : List UInt8 :=
  [0x68, 0x65, 0x6C, 0x6C, 0x6F, 0x20, 0x64, 0x72, 0x76, 0x20, 0x74, 0x65, 0x73, 0x74, 0x21]

def sizeofBufrh : ℕ := 1024

/-- The globals of the driver; `accepted`, `returns` and `copies` record the successful writes, the
return values and the copies. -/
structure LcdState where
  virtMem : Memory
  /-- An `unsigned long`. -/
  pos : ℕ
  accepted : List (List UInt8)
  returns : List ℤ
  copies : List Copy

/-- One call; `moved` is how far its copy gets. -/
inductive LcdAction where
  | open
  | read (count moved : ℕ)
  | write (buf : List UInt8) (moved : ℕ)
  deriving DecidableEq, Repr

open Machine (when)

/-- `ubuntu_lcd_read`: the whole text, whatever `count` is. -/
def LcdState.read (s : LcdState) (count moved : ℕ) : LcdState :=
  { s with
    returns := s.returns ++ [0]
    copies := s.copies ++ [⟨0, moved, sizeofBufrh, moved, count⟩] }

def LcdState.write (s : LcdState) (buf : List UInt8) (moved : ℕ) : LcdState :=
  let s' := { s with
    virtMem := s.virtMem.store s.pos (copyFromUser buf moved)
    returns := s.returns ++ [0]
    copies := s.copies ++ [⟨s.pos, buf.length, pageSize, moved, buf.length⟩] }
  if moved < buf.length then s'
  else { s' with pos := (s.pos + buf.length) % 2 ^ 64, accepted := s.accepted ++ [buf] }

/-- The driver after `ubuntu_lcd_init`. -/
def lcdDrv : Machine LcdState LcdAction where
  init := { virtMem := fun _ => 0, pos := 0, accepted := [], returns := [], copies := [] }
  step s
    | .open => some { s with returns := s.returns ++ [0] }
    | .read count moved => when (moved ≤ bufrh.length) (s.read count moved)
    | .write buf moved => when (moved ≤ buf.length) (s.write buf moved)

/-- `pos` is the length of what was accepted. -/
def LcdState.Positioned (s : LcdState) : Prop := s.pos = s.accepted.flatten.length % 2 ^ 64

theorem positioned_preserved : lcdDrv.Preserves (fun _ _ => True) LcdState.Positioned := by
  intro s a t hs _ h
  cases a with
  | «open» =>
      obtain rfl := Option.some.inj h
      exact hs
  | read count moved =>
      obtain ⟨-, rfl⟩ := Machine.when_eq_some.mp h
      exact hs
  | write buf moved =>
      obtain ⟨-, rfl⟩ := Machine.when_eq_some.mp h
      rw [LcdState.write]
      split
      · exact hs
      · rw [LcdState.Positioned] at hs ⊢
        simp only [List.flatten_append, List.flatten_singleton, List.length_append, hs]
        rw [Nat.mod_add_mod]

/-- **The position accumulates over all writes.** -/
theorem pos_exec {as : List LcdAction} {s : LcdState} (h : lcdDrv.exec lcdDrv.init as = some s) :
    s.pos = s.accepted.flatten.length % 2 ^ 64 :=
  Machine.exec_of_preserves positioned_preserved (show lcdDrv.init.Positioned from rfl)
    (Machine.along_of_forall (fun _ _ => trivial) _) h

end CourseDesign.Drivers
