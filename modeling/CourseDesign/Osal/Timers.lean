import CourseDesign.Osal.Messages

/-!
# The timers of the sensor nodes

`OSAL_Timers.c`.  Every running timer has a record in one list; the list belongs to everybody, so
that interrupts start and stop timers while `osalTimerUpdate` walks over it.  It is no good then to
take a stopped timer out at once: `osalDeleteTimer` clears its `event_flag`, and the next walk
removes it.

* `osalStart_found`, `osalStart_new`, `osalStart_null` — a timer that is started runs in its old
  record, or in a new one at the end, or there is no memory for it.
* `osalStopTimerEx_found`, `osalStopTimerEx_none` — stopping one.
* `Timers.unlink_isList` — taking out a record.
-/

namespace CourseDesign.Osal

open LinkedList

/-! ## The functions -/

/-- `osalTimerRec_t`; its link `next` is kept apart. -/
structure OsalTimerRec where
  timeout : ℕ
  eventFlag : BitVec 16
  taskId : ℕ
  reloadTimeout : ℕ

/-- What a timer is known by: the task and its event. -/
abbrev TimerKey := ℕ × BitVec 16

def OsalTimerRec.key (r : OsalTimerRec) : TimerKey := (r.taskId, r.eventFlag)

/-- The records with their links, `timerHead` and `osal_systemClock`. -/
structure Timers where
  next : ℕ → ℕ
  timer : ℕ → OsalTimerRec
  timerHead : ℕ
  systemClock : ℕ

/-- Writing to the record `p`. -/
def Timers.write (s : Timers) (p : ℕ) (r : OsalTimerRec) : Timers :=
  { s with timer := Function.update s.timer p r }

/-- `osalFindTimer`. -/
def osalFindTimer (taskId : ℕ) (eventFlag : BitVec 16) (s : Timers) : Option ℕ :=
  findNode s.next (fun p => (s.timer p).eventFlag = eventFlag && (s.timer p).taskId = taskId)
    (listMax + 1) s.timerHead

/-- `osalAddTimer`, and the record it returns; `newTimer` is what `osal_mem_alloc` returns, if it is
called. -/
def osalAddTimer (taskId : ℕ) (eventFlag : BitVec 16) (timeout newTimer : ℕ) (s : Timers) :
    Option (Timers × ℕ) :=
  (osalFindTimer taskId eventFlag s).bind fun found =>
    if found ≠ 0 then some (s.write found { s.timer found with timeout := timeout }, found)
    else if newTimer ≠ 0 then
      (append listMax s.next s.timerHead newTimer).map fun r =>
        ({ s with next := r.1, timerHead := r.2 }.write newTimer ⟨timeout, eventFlag, taskId, 0⟩,
          newTimer)
    else some (s, 0)

/-- `osalDeleteTimer`. -/
def osalDeleteTimer (rmTimer : ℕ) (s : Timers) : Timers :=
  if rmTimer ≠ 0 then s.write rmTimer { s.timer rmTimer with eventFlag := 0 } else s

/-- `osal_start_timerEx`, and the record of the timer: it returns `SUCCESS` if there is one. -/
def osalStartTimerEx (taskId : ℕ) (eventId : BitVec 16) (timeoutValue newTimer : ℕ) (s : Timers) :
    Option (Timers × ℕ) :=
  osalAddTimer taskId eventId timeoutValue newTimer s

/-- `osal_start_reload_timer`, and the record of the timer. -/
def osalStartReloadTimer (taskId : ℕ) (eventId : BitVec 16) (timeoutValue newTimer : ℕ)
    (s : Timers) : Option (Timers × ℕ) :=
  (osalAddTimer taskId eventId timeoutValue newTimer s).map fun (s, newTimer) =>
    (if newTimer ≠ 0 then
      s.write newTimer { s.timer newTimer with reloadTimeout := timeoutValue }
    else s, newTimer)

/-- `osal_stop_timerEx`, and the record it finds: it returns `SUCCESS` if there is one. -/
def osalStopTimerEx (taskId : ℕ) (eventId : BitVec 16) (s : Timers) : Option (Timers × ℕ) :=
  (osalFindTimer taskId eventId s).map fun foundTimer =>
    (if foundTimer ≠ 0 then osalDeleteTimer foundTimer s else s, foundTimer)

/-- `osal_get_timeoutEx`. -/
def osalGetTimeoutEx (taskId : ℕ) (eventId : BitVec 16) (s : Timers) : Option ℕ :=
  (osalFindTimer taskId eventId s).map fun tmr => if tmr ≠ 0 then (s.timer tmr).timeout else 0

/-- How `osalTimerUpdate` counts a record down. -/
def OsalTimerRec.countDown (updateTime : ℕ) (r : OsalTimerRec) : OsalTimerRec :=
  { r with timeout := if r.timeout ≤ updateTime then 0 else r.timeout - updateTime }

/-- The check for reloading. -/
def OsalTimerRec.reloads (r : OsalTimerRec) : Bool :=
  r.timeout = 0 && r.reloadTimeout ≠ 0 && r.eventFlag ≠ 0

/-- A record after the check. -/
def OsalTimerRec.reloaded (r : OsalTimerRec) : OsalTimerRec :=
  if r.reloads then { r with timeout := r.reloadTimeout } else r

/-- Whether the record is taken out of the list. -/
def OsalTimerRec.finished (r : OsalTimerRec) : Bool := r.timeout = 0 || r.eventFlag = 0

/-- `osalTimerUpdate` takes `srchTimer` out of the list. -/
def Timers.unlink (srchTimer prevTimer : ℕ) (s : Timers) : Timers :=
  if prevTimer = 0 then { s with timerHead := s.next srchTimer }
  else { s with next := Function.update s.next prevTimer (s.next srchTimer) }

/-! ## What they do to the list -/

section Specs

variable {s : Timers} {q : List ℕ} {p taskId newTimer : ℕ} {eventId : BitVec 16}

/-- The first record of a timer. -/
def Timers.record (s : Timers) (q : List ℕ) (k : TimerKey) : Option ℕ :=
  q.find? fun p => (s.timer p).key = k

theorem osalFindTimer_eq (h : IsList s.next s.timerHead q) (hlen : q.length ≤ listMax) :
    osalFindTimer taskId eventId s = some ((s.record q (taskId, eventId)).getD 0) := by
  rw [osalFindTimer, findNode_eq h.seg h.zero_notMem (by omega), Timers.record]
  congr 3
  funext p
  rw [OsalTimerRec.key, Bool.and_comm]
  simp only [Prod.mk.injEq, Bool.decide_and]

theorem record_some {k : TimerKey} (h : s.record q k = some p) : p ∈ q ∧ (s.timer p).key = k :=
  ⟨List.mem_of_find?_eq_some h, by simpa using List.find?_some h⟩

theorem record_none {k : TimerKey} (h : s.record q k = none) (hp : p ∈ q) :
    (s.timer p).key ≠ k := by
  simpa using List.find?_eq_none.mp h p hp

/-- `osal_start_timerEx` or `osal_start_reload_timer`. -/
def osalStart (reloads : Bool) (taskId : ℕ) (eventId : BitVec 16) (timeout newTimer : ℕ)
    (s : Timers) : Option (Timers × ℕ) :=
  if reloads then osalStartReloadTimer taskId eventId timeout newTimer s
  else osalStartTimerEx taskId eventId timeout newTimer s

/-- **A timer that has a record** is started in it. -/
theorem osalStart_found (reloads : Bool) (timeout newTimer : ℕ) (h : IsList s.next s.timerHead q)
    (hlen : q.length ≤ listMax) (hp : s.record q (taskId, eventId) = some p) :
    osalStart reloads taskId eventId timeout newTimer s =
      some (s.write p { s.timer p with
        timeout := timeout
        reloadTimeout := if reloads then timeout else (s.timer p).reloadTimeout }, p) := by
  have hne := h.ne_zero (record_some hp).1
  cases reloads with
  | false => simp [osalStart, osalStartTimerEx, osalAddTimer, osalFindTimer_eq h hlen, hp, hne]
  | true =>
      simp [osalStart, osalStartReloadTimer, osalAddTimer, osalFindTimer_eq h hlen, hp, hne,
        Timers.write]

/-- **A timer without a record** gets a new one at the end of the list. -/
theorem osalStart_new (reloads : Bool) (timeout : ℕ) (h : IsList s.next s.timerHead q)
    (hlen : q.length ≤ listMax) (hp : s.record q (taskId, eventId) = none) (hnew : newTimer ∉ q)
    (hzero : newTimer ≠ 0) : ∃ next head,
      osalStart reloads taskId eventId timeout newTimer s =
          some ({ s with next := next, timerHead := head }.write newTimer
            ⟨timeout, eventId, taskId, if reloads then timeout else 0⟩, newTimer) ∧
        IsList next head (q ++ [newTimer]) := by
  obtain ⟨next, head, happend, hlist, -⟩ := h.append hnew hzero hlen
  refine ⟨next, head, ?_, hlist⟩
  cases reloads with
  | false =>
      simp [osalStart, osalStartTimerEx, osalAddTimer, osalFindTimer_eq h hlen, hp, hzero, happend]
  | true =>
      simp [osalStart, osalStartReloadTimer, osalAddTimer, osalFindTimer_eq h hlen, hp, hzero,
        happend, Timers.write]

/-- There is no memory for a new record. -/
theorem osalStart_null (reloads : Bool) (timeout : ℕ) (h : IsList s.next s.timerHead q)
    (hlen : q.length ≤ listMax) (hp : s.record q (taskId, eventId) = none) :
    osalStart reloads taskId eventId timeout 0 s = some (s, 0) := by
  cases reloads with
  | false => simp [osalStart, osalStartTimerEx, osalAddTimer, osalFindTimer_eq h hlen, hp]
  | true => simp [osalStart, osalStartReloadTimer, osalAddTimer, osalFindTimer_eq h hlen, hp]

theorem osalStopTimerEx_found (h : IsList s.next s.timerHead q) (hlen : q.length ≤ listMax)
    (hp : s.record q (taskId, eventId) = some p) :
    osalStopTimerEx taskId eventId s =
      some (s.write p { s.timer p with eventFlag := 0 }, p) := by
  have hne := h.ne_zero (record_some hp).1
  simp [osalStopTimerEx, osalDeleteTimer, osalFindTimer_eq h hlen, hp, hne]

theorem osalStopTimerEx_none (h : IsList s.next s.timerHead q) (hlen : q.length ≤ listMax)
    (hp : s.record q (taskId, eventId) = none) :
    osalStopTimerEx taskId eventId s = some (s, 0) := by
  simp [osalStopTimerEx, osalFindTimer_eq h hlen, hp]

@[simp] theorem Timers.unlink_timer (s : Timers) (p prev : ℕ) :
    (s.unlink p prev).timer = s.timer := by
  rw [Timers.unlink]
  split
  · rfl
  · rfl

@[simp] theorem Timers.unlink_systemClock (s : Timers) (p prev : ℕ) :
    (s.unlink p prev).systemClock = s.systemClock := by
  rw [Timers.unlink]
  split
  · rfl
  · rfl

/-- **`osalTimerUpdate` takes a record out**, when it has the one in front of it at hand. -/
theorem Timers.unlink_isList {seen todo : List ℕ}
    (h : IsList s.next s.timerHead (seen ++ p :: todo)) :
    IsList (s.unlink p (seen.getLast?.getD 0)).next (s.unlink p (seen.getLast?.getD 0)).timerHead
        (seen ++ todo) ∧
      (s.unlink p (seen.getLast?.getD 0)).next p = s.next p := by
  have hnodup := h.nodup
  rw [List.nodup_middle, List.nodup_cons] at hnodup
  have hlist := h.unlink
  rcases List.eq_nil_or_concat seen with rfl | ⟨front, last, rfl⟩
  · have hhead : p = s.timerHead := h.head_eq.symm
    rw [LinkedList.unlink, if_pos hhead] at hlist
    exact ⟨hlist.1, rfl⟩
  · rw [List.concat_eq_append] at *
    have hprev : (front ++ [last]).getLast?.getD 0 = last := by simp
    have hlast : last ≠ 0 := h.ne_zero (by simp)
    have hhead : p ≠ s.timerHead := by
      rintro rfl
      cases front with
      | nil => exact hnodup.1 (by rw [IsList.head_eq h]; simp)
      | cons x front => exact hnodup.1 (by rw [IsList.head_eq h]; simp)
    have hp : p ∉ front ++ [last] := fun hp => hnodup.1 (List.mem_append_left _ hp)
    rw [hprev] at hlist ⊢
    rw [LinkedList.unlink, if_neg hhead] at hlist
    rw [Timers.unlink, if_neg hlast]
    exact ⟨hlist.1, hlist.2 p hp⟩

end Specs

end CourseDesign.Osal
