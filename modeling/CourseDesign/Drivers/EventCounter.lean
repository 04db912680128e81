import CourseDesign.Drivers.EventDrv
import Mathlib.Data.List.Count

/-!
# The pending-event counter of the touch device

`have_data` is raised at the end of a write and lowered at the end of a read, but tested only at
the wait, which a wake-up passes for every reader at once and a signal passes for any; and it is an
`int`.

* `accounted_preserved` — `have_data` is what was written less what was read, in 32 bits.
* `EventState.Awaited` — the condition on a step: a reader gets past its wait only if an event is
  pending for it besides those that the readers already past the wait will take, and a write raises
  `have_data` only while it is below the greatest `int`.
* `pending_counter` — a run meets it if and only if, whenever the calls in flight are completed,
  `have_data` is the events written less the events read, is not negative, and no more events were
  read than written.
-/

namespace CourseDesign.Drivers

/-- Every reader past its wait has an event of its own, and the counter has room for a write. -/
def EventState.Awaited (s : EventState) : EventAction → Prop
  | .readWait _ => (s.ready + s.copied : ℤ) < s.haveData.toInt
  | .writeCount => s.haveData.toInt < 2 ^ 31 - 1
  | _ => True

instance (s : EventState) : DecidablePred s.Awaited
  | .readWait _ => inferInstanceAs (Decidable ((s.ready + s.copied : ℤ) < s.haveData.toInt))
  | .writeCount => inferInstanceAs (Decidable (s.haveData.toInt < 2 ^ 31 - 1))
  | .open | .readCopy _ _ | .readCount | .writeCopy _ _ => isTrue trivial

/-- A read that copies succeeds only while some written event has not yet been read. -/
def EventState.FindsUnread (s : EventState) : EventAction → Prop
  | .readCopy count moved => moved = count → s.delivered.length < s.written.length
  | _ => True

/-- A step that brings a reader past its wait nearer to its return. -/
def EventAction.completesRead : EventAction → Prop
  | .readCopy count moved => moved = count
  | .readCount => True
  | _ => False

/-- The writes that are completed; a call in flight is not. -/
def EventState.completedWrites (s : EventState) : ℤ := s.written.length - s.stored

def EventState.completedReads (s : EventState) : ℤ := s.delivered.length - s.copied

/-- `have_data` is the completed writes less the completed reads, it is not negative, and no more
events were read than written. -/
structure EventState.CounterOk (s : EventState) : Prop where
  exact : s.haveData.toInt = s.completedWrites - s.completedReads
  nonneg : 0 ≤ s.haveData.toInt
  covered : s.delivered.length ≤ s.written.length

/-! ## What is always so -/

/-- What a step adds to the completed writes. -/
def EventAction.writes : EventAction → ℤ
  | .writeCount => 1
  | _ => 0

/-- What a step adds to the completed reads. -/
def EventAction.reads : EventAction → ℤ
  | .readCount => 1
  | _ => 0

/-- **What a step completes**, and what it does to the counter. -/
theorem completes_of_step {s t : EventState} {a : EventAction} (h : eventDrv.step s a = some t) :
    t.completedWrites = s.completedWrites + a.writes ∧
      t.completedReads = s.completedReads + a.reads ∧
      t.haveData = s.haveData + BitVec.ofInt 32 (a.writes - a.reads) := by
  have hzero : s.haveData = s.haveData + BitVec.ofInt 32 (0 - 0) := (BitVec.add_zero _).symm
  simp only [EventState.completedWrites, EventState.completedReads]
  cases a with
  | «open» =>
      obtain rfl := Option.some.inj h
      exact ⟨(Int.add_zero _).symm, (Int.add_zero _).symm, hzero⟩
  | readWait signal =>
      obtain ⟨-, rfl⟩ := Machine.when_eq_some.mp h
      exact ⟨(Int.add_zero _).symm, (Int.add_zero _).symm, hzero⟩
  | readCopy count moved =>
      obtain ⟨⟨-, hmoved⟩, rfl⟩ := Machine.when_eq_some.mp h
      rcases s.copyOut_cases hmoved with ⟨copies, heq⟩ | ⟨-, heq⟩
      · rw [heq]
        exact ⟨(Int.add_zero _).symm, (Int.add_zero _).symm, hzero⟩
      · rw [heq]
        refine ⟨(Int.add_zero _).symm, ?_, hzero⟩
        simp only [EventAction.reads, List.length_append, List.length_singleton]
        omega
  | readCount =>
      obtain ⟨hpos, rfl⟩ := Machine.when_eq_some.mp h
      refine ⟨(Int.add_zero _).symm, ?_, BitVec.sub_eq_add_neg _ _⟩
      simp only [EventAction.reads]
      omega
  | writeCopy buf moved =>
      obtain ⟨hmoved, rfl⟩ := Machine.when_eq_some.mp h
      rcases s.copyIn_cases hmoved with ⟨inputData, copies, heq⟩ | ⟨-, heq⟩
      · rw [heq]
        exact ⟨(Int.add_zero _).symm, (Int.add_zero _).symm, hzero⟩
      · rw [heq]
        refine ⟨?_, (Int.add_zero _).symm, hzero⟩
        simp only [EventAction.writes, List.length_append, List.length_singleton]
        omega
  | writeCount =>
      obtain ⟨hpos, rfl⟩ := Machine.when_eq_some.mp h
      refine ⟨?_, (Int.add_zero _).symm, rfl⟩
      simp only [EventAction.writes]
      omega

/-- Completed writes less completed reads, in 32 bits. -/
def EventState.Accounted (s : EventState) : Prop :=
  s.haveData = BitVec.ofInt 32 (s.completedWrites - s.completedReads)

theorem accounted_preserved : eventDrv.Preserves (fun _ _ => True) EventState.Accounted := by
  rintro s a t hs - h
  obtain ⟨hwrites, hreads, hdata⟩ := completes_of_step h
  rw [EventState.Accounted, hdata, hs, ← BitVec.ofInt_add, hwrites, hreads]
  congr 1
  omega

/-- **The counter counts** the steps that complete a write or a read. -/
theorem completed_exec {s t : EventState} {as : List EventAction}
    (h : eventDrv.exec s as = some t) :
    t.completedWrites = s.completedWrites + as.count .writeCount ∧
      t.completedReads = s.completedReads + as.count .readCount := by
  induction as generalizing s with
  | nil =>
      obtain rfl : s = t := by simpa using h
      simp
  | cons a as ih =>
      obtain ⟨u, hu, hrest⟩ := (eventDrv.exec_cons_eq_some).mp h
      obtain ⟨hwrites, hreads, -⟩ := completes_of_step hu
      obtain ⟨ihwrites, ihreads⟩ := ih hrest
      rw [ihwrites, ihreads, hwrites, hreads]
      cases a with
      | writeCount | readCount =>
          simp [EventAction.writes, EventAction.reads]
          omega
      | _ => simp [EventAction.writes, EventAction.reads]

/-! ## The invariant -/

/-- The counter did not wrap, and enough events are pending for the readers past their wait. -/
structure EventState.Covered (s : EventState) : Prop where
  exact : s.haveData.toInt = s.completedWrites - s.completedReads
  covered : (s.ready + s.copied : ℤ) ≤ s.haveData.toInt

theorem EventState.Covered.counterOk {s : EventState} (h : s.Covered) : s.CounterOk := by
  have hexact := h.exact
  have hcov := h.covered
  refine ⟨hexact, by omega, ?_⟩
  rw [EventState.completedWrites, EventState.completedReads] at hexact
  omega

/-- A reader past its wait finds an event that no reader has taken. -/
theorem EventState.Covered.findsUnread {s : EventState} {a : EventAction} {t : EventState}
    (h : s.Covered) (hstep : eventDrv.step s a = some t) : s.FindsUnread a := by
  cases a with
  | readCopy count moved =>
      obtain ⟨⟨hready, -⟩, -⟩ := Machine.when_eq_some.mp hstep
      intro _
      have hexact := h.exact
      have hcov := h.covered
      rw [EventState.completedWrites, EventState.completedReads] at hexact
      omega
  | _ => trivial

/-- Under the condition no step makes the counter wrap. -/
theorem EventState.Covered.toInt_of_step {s t : EventState} {a : EventAction} (h : s.Covered)
    (ha : s.Awaited a) (hstep : eventDrv.step s a = some t) :
    t.haveData.toInt = s.haveData.toInt + (a.writes - a.reads) := by
  obtain ⟨-, -, hdata⟩ := completes_of_step hstep
  have hcov := h.covered
  cases a with
  | writeCount =>
      rw [hdata]
      exact toInt_succ ha
  | readCount =>
      obtain ⟨hpos, rfl⟩ := Machine.when_eq_some.mp hstep
      exact toInt_pred (by omega)
  | _ =>
      have hsame : t.haveData = s.haveData := hdata.trans (BitVec.add_zero _)
      rw [hsame]
      exact (Int.add_zero _).symm

/-- **Step lemma.** -/
theorem covered_preserved : eventDrv.Preserves EventState.Awaited EventState.Covered := by
  intro s a t hs ha h
  obtain ⟨hwrites, hreads, -⟩ := completes_of_step h
  have hdata := hs.toInt_of_step ha h
  have hexact := hs.exact
  have hcov := hs.covered
  refine ⟨by omega, ?_⟩
  rw [hdata]
  cases a with
  | «open» =>
      obtain rfl := Option.some.inj h
      simpa [EventAction.writes, EventAction.reads] using hcov
  | readWait signal =>
      obtain ⟨-, rfl⟩ := Machine.when_eq_some.mp h
      have hroom : (s.ready + s.copied : ℤ) < s.haveData.toInt := ha
      simp only [EventAction.writes, EventAction.reads]
      push_cast
      omega
  | readCopy count moved =>
      obtain ⟨⟨hready, hmoved⟩, rfl⟩ := Machine.when_eq_some.mp h
      simp only [EventAction.writes, EventAction.reads]
      rcases s.copyOut_cases hmoved with ⟨copies, heq⟩ | ⟨-, heq⟩
      · rw [heq]
        dsimp only
        omega
      · rw [heq]
        dsimp only
        omega
  | readCount =>
      obtain ⟨hpos, rfl⟩ := Machine.when_eq_some.mp h
      simp only [EventAction.writes, EventAction.reads]
      omega
  | writeCopy buf moved =>
      obtain ⟨hmoved, rfl⟩ := Machine.when_eq_some.mp h
      simp only [EventAction.writes, EventAction.reads]
      rcases s.copyIn_cases hmoved with ⟨inputData, copies, heq⟩ | ⟨-, heq⟩
      · rw [heq]
        dsimp only
        omega
      · rw [heq]
        dsimp only
        omega
  | writeCount =>
      obtain ⟨hpos, rfl⟩ := Machine.when_eq_some.mp h
      simp only [EventAction.writes, EventAction.reads]
      omega

theorem covered_init : eventDrv.init.Covered := by
  constructor <;> simp [eventDrv, EventState.completedWrites, EventState.completedReads]

/-! ## The damage -/

/-- The readers past their copy return, and each lowers `have_data`. -/
theorem copied_drain (s : EventState) :
    ∃ t, eventDrv.exec s (List.replicate s.copied .readCount) = some t ∧
      t.haveData = s.haveData - BitVec.ofNat 32 s.copied := by
  induction hc : s.copied generalizing s with
  | zero => exact ⟨s, rfl, by simp⟩
  | succ c ih =>
      have hstep : eventDrv.step s .readCount =
          some { s with copied := s.copied - 1, haveData := s.haveData - 1 } :=
        Machine.when_eq_some.mpr ⟨by omega, rfl⟩
      obtain ⟨t, ht, hdata⟩ := ih { s with copied := s.copied - 1, haveData := s.haveData - 1 }
        (by simp [hc])
      refine ⟨t, (eventDrv.exec_cons_eq_some).mpr ⟨_, hstep, ht⟩, ?_⟩
      rw [hdata, Nat.add_comm c 1, BitVec.ofNat_add, ← BitVec.sub_sub]
      rfl

/-- The readers past their wait can all go on and return. -/
theorem ready_drain (s : EventState) :
    ∃ cs, (∀ c ∈ cs, c.completesRead) ∧ ∃ t, eventDrv.exec s cs = some t ∧
      t.haveData = s.haveData - BitVec.ofNat 32 (s.ready + s.copied) := by
  induction hr : s.ready generalizing s with
  | zero =>
      obtain ⟨t, ht, hdata⟩ := copied_drain s
      refine ⟨List.replicate s.copied .readCount, fun c hc => ?_, t, ht, ?_⟩
      · rw [List.eq_of_mem_replicate hc]
        trivial
      · rw [hdata, Nat.zero_add]
  | succ r ih =>
      have hstep : eventDrv.step s (.readCopy 0 0) = some (s.copyOut 0 0) :=
        Machine.when_eq_some.mpr ⟨⟨by omega, le_rfl⟩, rfl⟩
      have hwhole := s.copyOut_whole (Nat.zero_le sizeofInputEvent)
      obtain ⟨cs, hcs, t, ht, hdata⟩ := ih (s.copyOut 0 0) (by simp [hwhole, hr])
      refine ⟨.readCopy 0 0 :: cs, ?_, t, (eventDrv.exec_cons_eq_some).mpr ⟨_, hstep, ht⟩, ?_⟩
      · intro c hc
        rcases List.mem_cons.mp hc with rfl | hc
        · exact rfl
        · exact hcs c hc
      · rw [hdata, hwhole]
        dsimp only
        congr 2
        omega

/-- **One reader too many**: once it and the others have returned, `have_data` is -1.  **One write
too many**: `have_data` is the least `int`. -/
theorem negative_of_not_awaited {s t : EventState} {a : EventAction} (hs : s.Covered)
    (ha : ¬ s.Awaited a) (h : eventDrv.step s a = some t) :
    ∃ cs, (∀ c ∈ cs, c.completesRead) ∧ ∃ u, eventDrv.exec t cs = some u ∧ ¬ u.CounterOk := by
  have hcov := hs.covered
  cases a with
  | readWait signal =>
      obtain ⟨-, rfl⟩ := Machine.when_eq_some.mp h
      have hfull : ¬ (s.ready + s.copied : ℤ) < s.haveData.toInt := ha
      obtain ⟨cs, hcs, u, hu, hdata⟩ := ready_drain { s with ready := s.ready + 1 }
      refine ⟨cs, hcs, u, hu, fun hok => ?_⟩
      have hpending : s.haveData = BitVec.ofNat 32 (s.ready + s.copied) := by
        rw [← BitVec.ofInt_toInt (x := s.haveData), ← BitVec.ofInt_natCast]
        congr 1
        push_cast
        omega
      have hneg : u.haveData = -1 := by
        rw [hdata, hpending]
        dsimp only
        rw [Nat.add_right_comm, BitVec.ofNat_add (s.ready + s.copied) 1, ← BitVec.sub_sub,
          BitVec.sub_self]
        rfl
      have hnonneg := hok.nonneg
      rw [hneg] at hnonneg
      exact absurd hnonneg (by decide)
  | writeCount =>
      have hfull : ¬ s.haveData.toInt < 2 ^ 31 - 1 := ha
      have hlt : s.haveData.toInt < 2 ^ 31 := s.haveData.toInt_lt
      obtain ⟨-, rfl⟩ := Machine.when_eq_some.mp h
      refine ⟨[], fun c hc => absurd hc List.not_mem_nil, _, rfl, fun hok => ?_⟩
      have hlast : s.haveData = BitVec.ofInt 32 (2 ^ 31 - 1) := by
        rw [← BitVec.ofInt_toInt (x := s.haveData)]
        congr 1
        omega
      have hnonneg := hok.nonneg
      dsimp only at hnonneg
      rw [hlast] at hnonneg
      exact absurd hnonneg (by decide)
  | _ => exact absurd trivial ha

/-! ## The counter -/

/-- **The pending-event counter.**  In every run `have_data` is the completed writes less the
completed reads in 32 bits.  It is exactly that and never negative, and no read takes an event that
is not there, if and only if every reader that gets past its wait has an event of its own and no
write finds the counter at the greatest `int`. -/
theorem pending_counter {as : List EventAction} {s : EventState}
    (h : eventDrv.exec eventDrv.init as = some s) :
    s.haveData = BitVec.ofInt 32 (as.count .writeCount - as.count .readCount) ∧
      (s.completedWrites = as.count .writeCount ∧ s.completedReads = as.count .readCount) ∧
      (eventDrv.Along EventState.Awaited eventDrv.init as ↔
        eventDrv.ThroughoutWith EventAction.completesRead EventState.CounterOk eventDrv.init as) ∧
      (eventDrv.Along EventState.Awaited eventDrv.init as →
        eventDrv.Along EventState.FindsUnread eventDrv.init as) := by
  have hcounts : s.completedWrites = as.count .writeCount ∧
      s.completedReads = as.count .readCount := by
    have hcount := completed_exec h
    simpa [eventDrv, EventState.completedWrites, EventState.completedReads] using hcount
  refine ⟨?_, hcounts, ?_, fun hal => ?_⟩
  · have hacc : s.Accounted :=
      Machine.exec_of_preserves accounted_preserved (show eventDrv.init.Accounted from rfl)
        (Machine.along_of_forall (fun _ _ => trivial) _) h
    rw [hacc, hcounts.1, hcounts.2]
  · refine Machine.along_iff_throughoutWith (I := EventState.Covered) covered_preserved
      (fun _ hs => hs.counterOk) (fun s a ha => ?_)
      (fun s a t hs => negative_of_not_awaited hs) covered_init h
    cases a with
    | readCopy count moved => trivial
    | readCount => trivial
    | _ => exact absurd ha id
  · exact hal.of_preserves covered_preserved (fun s a t hs hstep => hs.findsUnread hstep)
      covered_init h

/-- A write and a read that one of its wake-ups let through. -/
def oneWriteOneRead : List EventAction :=
  [.writeCopy (List.replicate 24 1) 24, .writeCount, .readWait false, .readCopy 24 24, .readCount]

/-- After a write, a read finds its event, and the counter is zero again. -/
theorem one_read_is_covered :
    ∃ s, eventDrv.exec eventDrv.init oneWriteOneRead = some s ∧ s.haveData = 0 ∧
      eventDrv.ThroughoutWith EventAction.completesRead EventState.CounterOk eventDrv.init
        oneWriteOneRead := by
  obtain ⟨s, hs, hp⟩ := eventDrv.exists_exec eventDrv.init oneWriteOneRead
    (fun s => s.haveData = 0) (by decide +kernel)
  exact ⟨s, hs, hp, (pending_counter hs).2.2.1.mp (by decide +kernel)⟩

/-- A whole event is written. -/
def oneWrite : List EventAction := [.writeCopy (List.replicate 24 1) 24, .writeCount]

theorem exec_oneWrite (s : EventState) : ∃ t, eventDrv.exec s oneWrite = some t ∧
    t.haveData = s.haveData + 1 := by
  have hlen : 24 ≤ (List.replicate 24 (1 : UInt8)).length := le_of_eq (by simp)
  have hfits : (List.replicate 24 (1 : UInt8)).length ≤ sizeofInputEvent := by decide
  have hcopy : eventDrv.step s (.writeCopy (List.replicate 24 1) 24) =
      some (s.copyIn (List.replicate 24 1) 24) := Machine.when_eq_some.mpr ⟨hlen, rfl⟩
  have hwhole := s.copyIn_whole hfits
  rw [List.length_replicate] at hwhole
  have hstored : 0 < (s.copyIn (List.replicate 24 1) 24).stored := by
    rw [hwhole]
    exact Nat.succ_pos _
  refine ⟨_, (eventDrv.exec_cons_eq_some).mpr ⟨_, hcopy, (eventDrv.exec_cons_eq_some).mpr
    ⟨_, Machine.when_eq_some.mpr ⟨hstored, rfl⟩, rfl⟩⟩, ?_⟩
  dsimp only
  rw [hwhole]

/-- Writes that nobody reads. -/
theorem exec_unread (n : ℕ) (s : EventState) :
    ∃ t, eventDrv.exec s (List.replicate n oneWrite).flatten = some t ∧
      t.haveData = s.haveData + BitVec.ofNat 32 n := by
  induction n generalizing s with
  | zero => exact ⟨s, rfl, by simp⟩
  | succ n ih =>
      obtain ⟨u, hu, hone⟩ := exec_oneWrite s
      obtain ⟨t, ht, hdata⟩ := ih u
      refine ⟨t, ?_, ?_⟩
      · rw [List.replicate_succ, List.flatten_cons]
        exact (eventDrv.exec_append_eq_some).mpr ⟨u, hu, ht⟩
      · rw [hdata, hone, Nat.add_comm n 1, BitVec.ofNat_add, ← BitVec.add_assoc]
        rfl

/-- A signal ends the wait of a reader on the empty device: it returns an event that nobody wrote.
One write wakes two readers: both return its event.  Either way `have_data` is -1.  And after 2^31
writes that nobody read it is the least `int`. -/
theorem uncovered_reads_go_negative :
    (∃ s, eventDrv.exec eventDrv.init [.readWait true, .readCopy 24 24, .readCount] = some s ∧
      s.haveData.toInt = -1 ∧ s.delivered.length = 1 ∧ s.written.length = 0) ∧
    (∃ s, eventDrv.exec eventDrv.init
        [.writeCopy (List.replicate 24 1) 24, .writeCount, .readWait false, .readWait false,
          .readCopy 24 24, .readCount, .readCopy 24 24, .readCount] = some s ∧
      s.haveData.toInt = -1 ∧ s.delivered.length = 2 ∧ s.written.length = 1) ∧
    (∃ s, eventDrv.exec eventDrv.init (List.replicate (2 ^ 31) oneWrite).flatten = some s ∧
      s.haveData.toInt = -2 ^ 31) ∧
    ¬ ∀ as, eventDrv.Throughout EventState.CounterOk eventDrv.init as := by
  have hsignal := eventDrv.exists_exec eventDrv.init [.readWait true, .readCopy 24 24, .readCount]
    (fun s => s.haveData.toInt = -1 ∧ s.delivered.length = 1 ∧ s.written.length = 0)
    (by decide +kernel)
  refine ⟨hsignal, ?_, ?_, fun hall => ?_⟩
  · exact eventDrv.exists_exec eventDrv.init _
      (fun s => s.haveData.toInt = -1 ∧ s.delivered.length = 2 ∧ s.written.length = 1)
      (by decide +kernel)
  · obtain ⟨t, ht, hdata⟩ := exec_unread (2 ^ 31) eventDrv.init
    refine ⟨t, ht, ?_⟩
    rw [hdata]
    decide
  · obtain ⟨s, hs, hdata, -⟩ := hsignal
    have hpos := (hall _ _ (List.prefix_refl _) s hs).nonneg
    omega

end CourseDesign.Drivers
