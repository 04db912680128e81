import CourseDesign.Lib.Fifo
import CourseDesign.Drivers.EventDrv

/-!
# The touch device as a queue

The driver counts pending events but has room for one.  Its readers expect a queue.

* `slot_simulates` — as long as nobody writes or opens while an event is unread, each step of the
  driver is a step of the queue or none.
* `delivered_prefix_written` — then, in every state of every such run, the events read are the first
  ones written, in order.
-/

namespace CourseDesign.Drivers

/-- The calls the device is used with: whole events, no fault, no signal, one reader. -/
def Regular (s : EventState) : EventAction → Prop
  | .readWait signal => signal = false ∧ s.ready = 0 ∧ s.copied = 0
  | .readCopy count moved => count = sizeofInputEvent ∧ moved = sizeofInputEvent
  | .writeCopy buf moved => buf.length = sizeofInputEvent ∧ moved = sizeofInputEvent
  | _ => True

instance (s : EventState) : ∀ a, Decidable (Regular s a)
  | .readWait _ => inferInstanceAs (Decidable (_ ∧ _ ∧ _))
  | .readCopy .. | .writeCopy .. => inferInstanceAs (Decidable (_ ∧ _))
  | .open | .readCount | .writeCount => inferInstanceAs (Decidable True)

/-- The condition on the writes and opens: every event written has been read. -/
def Drained (s : EventState) : EventAction → Prop
  | .open | .writeCopy .. => s.delivered.length = s.written.length
  | _ => True

instance (s : EventState) : ∀ a, Decidable (Drained s a)
  | .open | .writeCopy .. => inferInstanceAs (Decidable (_ = _))
  | .readWait _ | .readCopy .. | .readCount | .writeCount => inferInstanceAs (Decidable True)

/-- The queue operation a step stands for: the copies are where events change hands. -/
def queueOp (s : EventState) : EventAction → List (Fifo.Op (List UInt8))
  | .readCopy _ moved => [.get (s.inputData.load 0 moved)]
  | .writeCopy buf _ => [.put buf]
  | _ => []

/-- The driver holds the queue `q`. -/
structure Holds (s : EventState) (q : Fifo.State (List UInt8)) : Prop where
  conserved : q.Conserved
  put : q.put = s.written
  got : q.got = s.delivered
  slot : q.items = [] ∨ q.items = [s.inputData.load 0 sizeofInputEvent]
  /-- `have_data` is the number of events in the queue, but for the calls in flight. -/
  counted : s.haveData.toInt = q.items.length - s.stored + s.copied
  storing : s.stored ≤ q.items.length
  reading : 0 < s.ready → s.stored < q.items.length
  single : s.ready + s.copied ≤ 1

theorem holds_init : Holds eventDrv.init Fifo.fifo.init where
  conserved := Fifo.conserved_init
  put := rfl
  got := rfl
  slot := Or.inl rfl
  counted := rfl
  storing := le_refl _
  reading h := h
  single := by simp [eventDrv]

theorem Holds.items_le_one {s : EventState} {q : Fifo.State (List UInt8)} (h : Holds s q) :
    q.items.length ≤ 1 := by
  rcases h.slot with hnil | hone
  · simp [hnil]
  · simp [hone]

/-- A drained driver holds the empty queue. -/
theorem Holds.items_eq_nil {s : EventState} {q : Fifo.State (List UInt8)} (h : Holds s q)
    (hd : s.delivered.length = s.written.length) : q.items = [] := by
  have hlen := congrArg List.length h.conserved
  rw [List.length_append, h.got, h.put] at hlen
  rw [← List.length_eq_zero_iff]
  omega

/-- A copy to the reader past its wait takes the one event out of the queue. -/
theorem holds_copyOut {s : EventState} {q : Fifo.State (List UInt8)} (h : Holds s q)
    (hready : 0 < s.ready) :
    ∃ q', Fifo.fifo.exec q [.get (s.inputData.load 0 sizeofInputEvent)] = some q' ∧
      Holds (s.copyOut sizeofInputEvent sizeofInputEvent) q' := by
  have hreading := h.reading hready
  have hslot : q.items = [s.inputData.load 0 sizeofInputEvent] := by
    rcases h.slot with hnil | hone
    · simp [hnil] at hreading
    · exact hone
  rw [hslot, List.length_singleton] at hreading
  have hcount := h.counted
  have hsingle := h.single
  rw [hslot, List.length_singleton] at hcount
  have hget : Fifo.fifo.exec q [.get (s.inputData.load 0 sizeofInputEvent)] =
      some { q with items := [], got := q.got ++ [s.inputData.load 0 sizeofInputEvent] } := by
    simp [Machine.exec, Fifo.fifo, Machine.when, hslot]
  refine ⟨_, hget, ?_⟩
  rw [s.copyOut_whole le_rfl]
  refine ⟨Fifo.conserved_exec h.conserved hget, h.put, ?_, Or.inl rfl, ?_, ?_, fun hr => ?_, ?_⟩
  · rw [h.got]
  · show s.haveData.toInt = (0 : ℕ) - s.stored + (s.copied + 1 : ℕ)
    omega
  · show s.stored ≤ 0
    omega
  · have hr : 0 < s.ready - 1 := hr
    omega
  · show s.ready - 1 + (s.copied + 1) ≤ 1
    omega

/-- A copy into the drained slot puts the event into the empty queue. -/
theorem holds_copyIn {s : EventState} {q : Fifo.State (List UInt8)} {buf : List UInt8}
    (h : Holds s q) (hempty : q.items = []) (hlen : buf.length = sizeofInputEvent) :
    ∃ q', Fifo.fifo.exec q [.put buf] = some q' ∧ Holds (s.copyIn buf sizeofInputEvent) q' := by
  have hcount := h.counted
  have hstoring := h.storing
  rw [hempty, List.length_nil] at hcount hstoring
  have hput : Fifo.fifo.exec q [.put buf] =
      some { q with items := [buf], put := q.put ++ [buf] } := by
    simp [Machine.exec, Fifo.fifo, hempty]
  refine ⟨_, hput, ?_⟩
  rw [← hlen, s.copyIn_whole hlen.le]
  refine ⟨Fifo.conserved_exec h.conserved hput, ?_, h.got, Or.inr ?_, ?_, ?_, fun hr => ?_,
    h.single⟩
  · rw [h.put]
  · show [buf] = [(s.inputData.store 0 buf).load 0 sizeofInputEvent]
    rw [← hlen, load_store]
  · show s.haveData.toInt = (1 : ℕ) - (s.stored + 1 : ℕ) + s.copied
    omega
  · show s.stored + 1 ≤ 1
    omega
  · have hreading := h.reading hr
    simp [hempty] at hreading

/-- **Step lemma.** -/
theorem slot_simulates {s s' : EventState} {a : EventAction} {q : Fifo.State (List UInt8)}
    (h : Holds s q) (ha : Regular s a ∧ Drained s a) (hstep : eventDrv.step s a = some s') :
    ∃ q', Fifo.fifo.exec q (queueOp s a) = some q' ∧ Holds s' q' := by
  obtain ⟨hreg, hdrained⟩ := ha
  cases a with
  | «open» =>
      obtain rfl := Option.some.inj hstep
      have hempty := h.items_eq_nil hdrained
      exact ⟨q, rfl, { h with slot := Or.inl hempty }⟩
  | readWait signal =>
      obtain ⟨hwait, rfl⟩ := Machine.when_eq_some.mp hstep
      obtain ⟨rfl, hready, hcopied⟩ := hreg
      have hdata : s.haveData ≠ 0 := by simpa using hwait
      have hpending : s.haveData.toInt ≠ 0 := fun hzero => hdata (BitVec.toInt_inj.mp hzero)
      have hcount := h.counted
      have hstoring := h.storing
      refine ⟨q, rfl, { h with reading := fun _ => ?_, single := ?_ }⟩
      · show s.stored < q.items.length
        omega
      · show s.ready + 1 + s.copied ≤ 1
        omega
  | readCopy count moved =>
      obtain ⟨⟨hready, -⟩, rfl⟩ := Machine.when_eq_some.mp hstep
      obtain ⟨rfl, rfl⟩ := hreg
      exact holds_copyOut h hready
  | readCount =>
      obtain ⟨hcopied, rfl⟩ := Machine.when_eq_some.mp hstep
      have hcount := h.counted
      have hsingle := h.single
      refine ⟨q, rfl, { h with counted := ?_, single := ?_ }⟩
      · show (s.haveData - 1).toInt = q.items.length - s.stored + (s.copied - 1 : ℕ)
        have hstoring := h.storing
        rw [toInt_pred (by omega)]
        omega
      · show s.ready + (s.copied - 1) ≤ 1
        omega
  | writeCopy buf moved =>
      obtain ⟨-, rfl⟩ := Machine.when_eq_some.mp hstep
      obtain ⟨hlen, rfl⟩ := hreg
      exact holds_copyIn h (h.items_eq_nil hdrained) hlen
  | writeCount =>
      obtain ⟨hstored, rfl⟩ := Machine.when_eq_some.mp hstep
      have hcount := h.counted
      have hstoring := h.storing
      refine ⟨q, rfl, { h with counted := ?_, storing := ?_, reading := fun hready => ?_ }⟩
      · show (s.haveData + 1).toInt = q.items.length - (s.stored - 1 : ℕ) + s.copied
        have hone := h.items_le_one
        have hsingle := h.single
        rw [toInt_succ (by omega)]
        omega
      · show s.stored - 1 ≤ q.items.length
        omega
      · have hreading := h.reading hready
        show s.stored - 1 < q.items.length
        omega

/-- **Refinement.**  The driver's run, told by its copies, is a run of the queue. -/
theorem eventDrv_refines_fifo {as : List EventAction} {s : EventState}
    (hreg : eventDrv.Along Regular eventDrv.init as)
    (hdrained : eventDrv.Along Drained eventDrv.init as)
    (h : eventDrv.exec eventDrv.init as = some s) :
    ∃ q, Fifo.fifo.exec Fifo.fifo.init (eventDrv.trace queueOp eventDrv.init as) = some q ∧
      Holds s q :=
  Machine.exec_simulates (fun _ _ _ _ hR hG hstep => slot_simulates hR hG hstep) holds_init
    (hreg.and hdrained) h

/-- **The touch device is a queue while it is drained.**  Take any run of whole writes by any number
of writers, whole reads by one reader, and opens.  If each write and each open happens when every
event written has been read, then in every state of the run the events read are a prefix of the
events written. -/
theorem delivered_prefix_written {as : List EventAction}
    (hreg : eventDrv.Along Regular eventDrv.init as)
    (hdrained : eventDrv.Along Drained eventDrv.init as) :
    eventDrv.Throughout (fun s => s.delivered <+: s.written) eventDrv.init as := by
  intro bs hbs s hs
  obtain ⟨q, -, hq⟩ :=
    eventDrv_refines_fifo (hreg.of_isPrefix hbs) (hdrained.of_isPrefix hbs) hs
  rw [← hq.put, ← hq.got]
  exact hq.conserved.got_prefix

/-- Events of two mouse positions. -/
def eventOf (b : UInt8) : List UInt8 := List.replicate sizeofInputEvent b

def writeEvent (b : UInt8) : List EventAction :=
  [.writeCopy (eventOf b) sizeofInputEvent, .writeCount]

def readEvent : List EventAction :=
  [.readWait false, .readCopy sizeofInputEvent sizeofInputEvent, .readCount]

/-- Two writes before the first read: the first event is gone, and the second one is read twice. -/
theorem second_write_replaces_event :
    eventDrv.Along Regular eventDrv.init (writeEvent 1 ++ writeEvent 2 ++ readEvent ++ readEvent) ∧
      ∃ s, eventDrv.exec eventDrv.init (writeEvent 1 ++ writeEvent 2 ++ readEvent ++ readEvent) =
        some s ∧ s.written = [eventOf 1, eventOf 2] ∧ s.delivered = [eventOf 2, eventOf 2] ∧
        ¬ s.delivered <+: s.written := by
  refine ⟨by decide +kernel, ?_⟩
  exact eventDrv.exists_exec eventDrv.init _ (fun s => s.written = [eventOf 1, eventOf 2] ∧
    s.delivered = [eventOf 2, eventOf 2] ∧ ¬ s.delivered <+: s.written) (by decide +kernel)

/-- A write and a read in turn, twice. -/
theorem alternate_writes_are_read :
    eventDrv.Throughout (fun s => s.delivered <+: s.written) eventDrv.init
      (writeEvent 1 ++ readEvent ++ (writeEvent 2 ++ readEvent)) :=
  delivered_prefix_written (by decide +kernel) (by decide +kernel)

end CourseDesign.Drivers
