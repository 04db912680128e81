import CourseDesign.Drivers.EventDrv
import CourseDesign.Drivers.LcdDrv

/-!
# The copies of the two drivers

The touch device copies into and out of one object whose size the compiler knows, so that a larger
count is refused.  The LCD hands the caller's `count` to the copy routine as it is: a run stays
inside its objects and the callers' buffers if and only if every call happens to fit.

* `eventCopy_inBounds` — every copy of the touch device is in bounds.
* `FitsLcd` — what fitting means for a call of the LCD.
* `copies_inBounds_iff` — the condition is exact, over whole runs of both devices.
-/

namespace CourseDesign.Drivers

/-- A write ends inside `virt_mem`, starting from the `pos` all earlier ones led to; a read has room
for the text. -/
def FitsLcd (s : LcdState) : LcdAction → Prop
  | .read count moved => moved ≤ count
  | .write buf _ => s.pos + buf.length ≤ pageSize
  | .open => True

instance (s : LcdState) : ∀ a, Decidable (FitsLcd s a)
  | .read .. | .write .. => inferInstanceAs (Decidable (_ ≤ _))
  | .open => inferInstanceAs (Decidable True)

/-! ## One step -/

/-- What a step of the touch device adds to the log. -/
def eventCopy : EventAction → List Copy
  | .readCopy count moved =>
      if sizeofInputEvent < count then [] else [⟨0, moved, sizeofInputEvent, moved, count⟩]
  | .writeCopy buf moved =>
      if sizeofInputEvent < buf.length then []
      else [⟨0, buf.length, sizeofInputEvent, moved, buf.length⟩]
  | _ => []

def lcdCopy (s : LcdState) : LcdAction → List Copy
  | .read count moved => [⟨0, moved, sizeofBufrh, moved, count⟩]
  | .write buf moved => [⟨s.pos, buf.length, pageSize, moved, buf.length⟩]
  | .open => []

theorem eventDrv_copies {s t : EventState} {a : EventAction} (h : eventDrv.step s a = some t) :
    t.copies = s.copies ++ eventCopy a := by
  cases a with
  | readCopy count moved =>
      obtain ⟨-, rfl⟩ := Machine.when_eq_some.mp h
      rw [EventState.copyOut, eventCopy]
      split
      · exact (List.append_nil _).symm
      · split <;> rfl
  | writeCopy buf moved =>
      obtain ⟨-, rfl⟩ := Machine.when_eq_some.mp h
      rw [EventState.copyIn, eventCopy]
      split
      · exact (List.append_nil _).symm
      · split <;> rfl
  | «open» =>
      obtain rfl := Option.some.inj h
      simp [eventCopy]
  | readWait _ | readCount | writeCount =>
      obtain ⟨-, rfl⟩ := Machine.when_eq_some.mp h
      simp [eventCopy]

/-- **A step of the touch device** copies in bounds. -/
theorem eventCopy_inBounds {s t : EventState} {a : EventAction} (h : eventDrv.step s a = some t) :
    ∀ c ∈ eventCopy a, c.InBounds := by
  cases a with
  | readCopy count moved =>
      obtain ⟨⟨-, hmoved⟩, -⟩ := Machine.when_eq_some.mp h
      rw [eventCopy]
      split
      · exact fun c hc => absurd hc List.not_mem_nil
      next hfits =>
          simp only [List.mem_singleton, forall_eq, Copy.InBounds]
          omega
  | writeCopy buf moved =>
      obtain ⟨hmoved, -⟩ := Machine.when_eq_some.mp h
      rw [eventCopy]
      split
      · exact fun c hc => absurd hc List.not_mem_nil
      next hfits =>
          simp only [List.mem_singleton, forall_eq, Copy.InBounds]
          omega
  | «open» | readWait _ | readCount | writeCount => simp [eventCopy]

/-- The log of the touch device stays in bounds. -/
theorem eventInBounds_preserved :
    eventDrv.Preserves (fun _ _ => True) fun s => ∀ c ∈ s.copies, c.InBounds := by
  intro s a t hs _ h
  rw [eventDrv_copies h, List.forall_mem_append]
  exact ⟨hs, eventCopy_inBounds h⟩

theorem lcdDrv_copies {s t : LcdState} {a : LcdAction} (h : lcdDrv.step s a = some t) :
    t.copies = s.copies ++ lcdCopy s a := by
  cases a with
  | read count moved =>
      obtain ⟨-, rfl⟩ := Machine.when_eq_some.mp h
      rfl
  | write buf moved =>
      obtain ⟨-, rfl⟩ := Machine.when_eq_some.mp h
      rw [LcdState.write]
      split <;> rfl
  | «open» =>
      obtain rfl := Option.some.inj h
      simp [lcdCopy]

/-- **A call of the LCD** copies in bounds exactly when it fits, while `pos` is inside. -/
theorem lcdCopy_inBounds_iff {s t : LcdState} {a : LcdAction} (hpos : s.pos ≤ pageSize)
    (h : lcdDrv.step s a = some t) : (∀ c ∈ lcdCopy s a, c.InBounds) ↔ FitsLcd s a := by
  cases a with
  | read count moved =>
      obtain ⟨hmoved, -⟩ := Machine.when_eq_some.mp h
      have hlen : bufrh.length ≤ sizeofBufrh := by decide
      simp only [lcdCopy, List.mem_singleton, forall_eq, Copy.InBounds, FitsLcd]
      omega
  | write buf moved =>
      obtain ⟨hmoved, -⟩ := Machine.when_eq_some.mp h
      simp only [lcdCopy, List.mem_singleton, forall_eq, Copy.InBounds, FitsLcd]
      omega
  | «open» => simp [lcdCopy, FitsLcd]

/-- As long as the writes fit, `pos` stays inside `virt_mem` and does not wrap. -/
theorem pos_le_preserved : lcdDrv.Preserves FitsLcd fun s => s.pos ≤ pageSize := by
  intro s a t hpos hfits h
  cases a with
  | read count moved =>
      obtain ⟨-, rfl⟩ := Machine.when_eq_some.mp h
      exact hpos
  | write buf moved =>
      obtain ⟨-, rfl⟩ := Machine.when_eq_some.mp h
      rw [LcdState.write]
      split
      · exact hpos
      · exact (Nat.mod_le _ _).trans hfits
  | «open» =>
      obtain rfl := Option.some.inj h
      exact hpos

/-! ## Whole runs -/

/-- **Bounds of the two drivers, exactly.**  In any run of the touch device, with any counts, every
byte copied lies inside the driver's object and inside the caller's buffer.  In any run of the LCD
this is so if and only if every call of the run fits. -/
theorem copies_inBounds_iff {as : List EventAction} {s : EventState} {bs : List LcdAction}
    {t : LcdState} (hevent : eventDrv.exec eventDrv.init as = some s)
    (hlcd : lcdDrv.exec lcdDrv.init bs = some t) :
    (∀ c ∈ s.copies, c.InBounds) ∧
      ((∀ c ∈ t.copies, c.InBounds) ↔ lcdDrv.Along FitsLcd lcdDrv.init bs) := by
  constructor
  · exact Machine.exec_of_preserves eventInBounds_preserved (by simp [eventDrv])
      (Machine.along_of_forall (fun _ _ => trivial) _) hevent
  · exact Machine.log_ok_iff_along (fun _ _ _ h => lcdDrv_copies h)
      (fun _ _ _ hpos h => lcdCopy_inBounds_iff hpos h) pos_le_preserved (Nat.zero_le _)
      (by simp [lcdDrv]) hlcd

/-- A first write longer than the screen leaves `virt_mem`. -/
theorem oversized_write_leaves_bounds {buf : List UInt8} (hlong : pageSize < buf.length) :
    ∃ t, lcdDrv.exec lcdDrv.init [.write buf buf.length] = some t ∧
      ¬ ∀ c ∈ t.copies, c.InBounds := by
  have hstep : lcdDrv.step lcdDrv.init (.write buf buf.length) =
      some (lcdDrv.init.write buf buf.length) :=
    Machine.when_eq_some.mpr ⟨le_refl _, rfl⟩
  refine ⟨_, (lcdDrv.exec_cons_eq_some).mpr ⟨_, hstep, rfl⟩, fun h => ?_⟩
  rw [lcdDrv_copies hstep, List.forall_mem_append] at h
  have hfits : 0 + buf.length ≤ pageSize := (lcdCopy_inBounds_iff (Nat.zero_le _) hstep).mp h.2
  omega

/-- On the LCD, a read into one byte and a write of one byte too many. -/
theorem oversized_calls_leave_bounds :
    (∃ t, lcdDrv.exec lcdDrv.init [.read 1 15] = some t ∧ ¬ ∀ c ∈ t.copies, c.InBounds) ∧
      ∃ t, lcdDrv.exec lcdDrv.init
          [.write (List.replicate (pageSize + 1) 0) (pageSize + 1)] = some t ∧
        ¬ ∀ c ∈ t.copies, c.InBounds := by
  refine ⟨?_, ?_⟩
  · exact lcdDrv.exists_exec lcdDrv.init _ (fun t => ¬ ∀ c ∈ t.copies, c.InBounds)
      (by decide +kernel)
  · have hlong : pageSize < (List.replicate (pageSize + 1) (0 : UInt8)).length := by
      rw [List.length_replicate]
      exact Nat.lt_succ_self _
    have hout := oversized_write_leaves_bounds hlong
    rwa [List.length_replicate] at hout

/-- A write of 25 bytes that is refused and one of a whole event, a read with room and two small
writes. -/
theorem modest_calls_stay_in_bounds :
    (∃ s, eventDrv.exec eventDrv.init
        [.writeCopy (List.replicate 25 0) 25, .writeCopy (List.replicate 24 7) 24, .writeCount] =
          some s ∧ ∀ c ∈ s.copies, c.InBounds) ∧
      ∃ t, lcdDrv.exec lcdDrv.init [.read 20 15, .write [1, 2] 2, .write [3, 4, 5] 3] = some t ∧
        ∀ c ∈ t.copies, c.InBounds := by
  obtain ⟨s, hs, -⟩ := eventDrv.exists_exec eventDrv.init
    [.writeCopy (List.replicate 25 0) 25, .writeCopy (List.replicate 24 7) 24, .writeCount]
    (fun _ => True) (by decide +kernel)
  obtain ⟨t, ht, -⟩ := lcdDrv.exists_exec lcdDrv.init
    [.read 20 15, .write [1, 2] 2, .write [3, 4, 5] 3] (fun _ => True) (by decide +kernel)
  obtain ⟨hevent, hlcd⟩ := copies_inBounds_iff hs ht
  exact ⟨⟨s, hs, hevent⟩, t, ht, hlcd.mpr (by decide +kernel)⟩

end CourseDesign.Drivers
