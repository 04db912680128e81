import CourseDesign.Lib.LinkedList
import CourseDesign.Lib.Mailbox
import Mathlib.Data.BitVec

/-!
# The messages of the sensor nodes

The message queue and the events of `OSAL.c`.  A message is known by its pointer; its header has the
link `next` and the receiver `dest_id`.  All messages wait in one list, whoever they are for.

* `Queued` — the list that `osal_qHead` begins, and what the headers say of messages that are not in
  it.
* `osalMsgSend_queued`, `osalMsgReceive_queued` — sending hangs a message behind the last, and
  receiving takes out the first for the asking task and says by `SYS_EVENT_MSG` whether there is
  another.
-/

namespace CourseDesign.Osal

open LinkedList

/-! ## The functions -/

/-- `TASK_NO_TASK`. -/
def taskNoTask : ℕ := 0xFF

/-- `SYS_EVENT_MSG`: a message is waiting. -/
def sysEventMsg : BitVec 16 := 0x8000

/-- The headers of the messages, `osal_qHead` and `tasksEvents`. -/
structure Messages where
  next : ℕ → ℕ
  dest : ℕ → ℕ
  qHead : ℕ
  tasksEvents : ℕ → BitVec 16

/-- A bound on the nodes of a list: a pointer has 16 bits. -/
def listMax : ℕ := 2 ^ 16

/-- `osal_set_event`. -/
def osalSetEvent (tasksCnt taskId : ℕ) (eventFlag : BitVec 16) (m : Messages) : Messages :=
  if taskId < tasksCnt then
    { m with tasksEvents :=
        Function.update m.tasksEvents taskId (m.tasksEvents taskId ||| eventFlag) }
  else m

/-- `osal_clear_event`. -/
def osalClearEvent (tasksCnt taskId : ℕ) (eventFlag : BitVec 16) (m : Messages) : Messages :=
  if taskId < tasksCnt then
    { m with tasksEvents :=
        Function.update m.tasksEvents taskId (m.tasksEvents taskId &&& ~~~eventFlag) }
  else m

/-- The header that `osal_msg_allocate` writes. -/
def osalMsgAllocate (p : ℕ) (m : Messages) : Messages :=
  { m with next := Function.update m.next p 0, dest := Function.update m.dest p taskNoTask }

/-- Whether `osal_msg_deallocate` frees the message: not while it is queued. -/
def osalMsgDeallocate (p : ℕ) (m : Messages) : Bool := m.dest p = taskNoTask

/-- `osal_msg_enqueue(&osal_qHead, msg_ptr)`. -/
def osalMsgEnqueue (p : ℕ) (m : Messages) : Option Messages :=
  (append listMax m.next m.qHead p).map fun r => { m with next := r.1, qHead := r.2 }

/-- What `osal_msg_send` returns, and whether it has freed the message. -/
inductive Sending where
  | success
  | invalidTask (freed : Bool)
  | invalidMsgPointer (freed : Bool)
  deriving DecidableEq

/-- `osal_msg_send` for a message, up to its `osal_set_event`. -/
def osalMsgSend (tasksCnt destinationTask p : ℕ) (m : Messages) : Option (Messages × Sending) :=
  if tasksCnt ≤ destinationTask then some (m, .invalidTask (osalMsgDeallocate p m))
  else if m.next p ≠ 0 ∨ m.dest p ≠ taskNoTask then
    some (m, .invalidMsgPointer (osalMsgDeallocate p m))
  else (osalMsgEnqueue p { m with dest := Function.update m.dest p destinationTask }).map
    fun m => (m, .success)

/-- The loop of `osal_msg_receive`: `listHdr`, `prevHdr` and `foundHdr` at its end. -/
def osalMsgReceiveLoop (taskId : ℕ) (m : Messages) : ℕ → ℕ → ℕ → ℕ → Option (ℕ × ℕ × ℕ)
  | 0, _, _, _ => none
  | fuel + 1, listHdr, prevHdr, foundHdr =>
      if listHdr = 0 ∨ m.dest listHdr = taskId ∧ foundHdr ≠ 0 then some (listHdr, prevHdr, foundHdr)
      else
        let foundHdr := if m.dest listHdr = taskId then listHdr else foundHdr
        let prevHdr := if foundHdr = 0 then listHdr else prevHdr
        osalMsgReceiveLoop taskId m fuel (m.next listHdr) prevHdr foundHdr

/-- `osal_msg_extract(&osal_qHead, msg_ptr, prev_ptr)`. -/
def osalMsgExtract (p prev : ℕ) (m : Messages) : Messages :=
  let r := unlink m.next m.qHead p prev
  { m with
    next := Function.update r.1 p 0
    qHead := r.2
    dest := Function.update m.dest p taskNoTask }

/-- `osal_msg_receive`, and the pointer it returns. -/
def osalMsgReceive (tasksCnt taskId : ℕ) (m : Messages) : Option (Messages × ℕ) :=
  (osalMsgReceiveLoop taskId m (listMax + 1) m.qHead 0 0).map fun
    | (listHdr, prevHdr, foundHdr) =>
        let m := if listHdr ≠ 0 then osalSetEvent tasksCnt taskId sysEventMsg m
          else osalClearEvent tasksCnt taskId sysEventMsg m
        (if foundHdr ≠ 0 then osalMsgExtract foundHdr prevHdr m else m, foundHdr)

/-! ## Events -/

section Events

variable {tasksCnt t u : ℕ} {flag e : BitVec 16} {m : Messages}

/-- `tasksEvents[t] & SYS_EVENT_MSG`. -/
def Messages.Signalled (m : Messages) (t : ℕ) : Prop := m.tasksEvents t &&& sysEventMsg ≠ 0

theorem or_and_self (e flag : BitVec 16) : (e ||| flag) &&& flag = flag := by
  ext i hi
  simp only [BitVec.getElem_and, BitVec.getElem_or]
  cases e[i] with
  | false => simp
  | true => simp

theorem or_and_ne_zero {e flag sys : BitVec 16} (h : e &&& sys ≠ 0) : (e ||| flag) &&& sys ≠ 0 := by
  intro hzero
  apply h
  ext i hi
  have hbit := congrArg (fun x => x[i]) hzero
  simp only [BitVec.getElem_and, BitVec.getElem_or, BitVec.ofNat_eq_ofNat,
    BitVec.getElem_zero] at hbit ⊢
  cases he : e[i] with
  | false => simp
  | true => simpa [he] using hbit

theorem signalled_set (ht : t < tasksCnt) :
    (osalSetEvent tasksCnt t sysEventMsg m).Signalled t := by
  rw [Messages.Signalled, osalSetEvent, if_pos ht]
  dsimp only
  rw [Function.update_self, or_and_self]
  decide

/-- Setting an event takes no signal away. -/
theorem Messages.Signalled.set (h : m.Signalled u) :
    (osalSetEvent tasksCnt t flag m).Signalled u := by
  rw [Messages.Signalled, osalSetEvent]
  split
  · dsimp only
    by_cases hu : u = t
    · rw [hu, Function.update_self]
      exact or_and_ne_zero (hu ▸ h)
    · rw [Function.update_of_ne hu]
      exact h
  · exact h

end Events

/-! ## The loop of `osal_msg_receive` -/

section Loop

variable {m : Messages} {taskId a found fuel : ℕ} {q pre : List ℕ}

/-- Behind the first message for the task, the loop looks for another. -/
theorem receiveLoop_found (prev : ℕ) (hq : Seg m.next a q 0) (hzero : 0 ∉ q) (hfound : found ≠ 0)
    (hfuel : q.length < fuel) : ∃ listHdr,
      osalMsgReceiveLoop taskId m fuel a prev found = some (listHdr, prev, found) ∧
        (listHdr ≠ 0 ↔ q.filter (fun p => m.dest p = taskId) ≠ []) := by
  induction q generalizing a fuel with
  | nil =>
      obtain ⟨fuel, rfl⟩ := Nat.exists_eq_add_of_lt hfuel
      obtain rfl : a = 0 := hq
      exact ⟨0, by simp [osalMsgReceiveLoop], by simp⟩
  | cons x q ih =>
      obtain ⟨fuel, rfl⟩ := Nat.exists_eq_add_of_lt hfuel
      obtain ⟨rfl, hrest⟩ := hq
      have hne : a ≠ 0 := fun h => hzero (by simp [h])
      rw [List.length_cons, osalMsgReceiveLoop]
      by_cases hdest : m.dest a = taskId
      · rw [if_pos (Or.inr ⟨hdest, hfound⟩)]
        exact ⟨a, rfl, by simp [hne, hdest]⟩
      · rw [if_neg (by simp [hne, hdest])]
        simp only [if_neg hdest, if_neg hfound]
        have hrec := ih hrest (fun h => hzero (List.mem_cons_of_mem _ h))
          (by omega : q.length < q.length + 1 + fuel)
        obtain ⟨listHdr, hrun, hiff⟩ := hrec
        exact ⟨listHdr, hrun, by rw [hiff]; simp [hdest]⟩

/-- In front of it, the loop goes on and keeps the last message it passed. -/
theorem receiveLoop_skip (prev fuel : ℕ) {c : ℕ} (hq : Seg m.next a pre c) (hzero : 0 ∉ pre)
    (hpre : ∀ x ∈ pre, m.dest x ≠ taskId) :
    osalMsgReceiveLoop taskId m (pre.length + fuel) a prev 0 =
      osalMsgReceiveLoop taskId m fuel c (pre.getLast?.getD prev) 0 := by
  induction pre generalizing a prev with
  | nil =>
      obtain rfl : a = c := hq
      simp
  | cons x pre ih =>
      obtain ⟨rfl, hrest⟩ := hq
      have hne : a ≠ 0 := fun h => hzero (by simp [h])
      have hdest := hpre a List.mem_cons_self
      have hstep : osalMsgReceiveLoop taskId m (pre.length + fuel + 1) a prev 0 =
          osalMsgReceiveLoop taskId m (pre.length + fuel) (m.next a) a 0 := by
        simp [osalMsgReceiveLoop, hne, hdest]
      rw [List.length_cons, Nat.add_right_comm, hstep,
        ih a hrest (fun h => hzero (List.mem_cons_of_mem _ h))
          fun y hy => hpre y (List.mem_cons_of_mem _ hy)]
      cases pre with
      | nil => rfl
      | cons y pre => simp [List.getLast?_cons]

end Loop

/-! ## The queue -/

/-- The messages of the queue are `q`.  Every queued message is allocated and for some task, and the
header of every other one says that it is not queued. -/
structure Queued (tasksCnt : ℕ) (live : ℕ → Bool) (m : Messages) (q : List ℕ) : Prop where
  list : IsList m.next m.qHead q
  queued : ∀ p ∈ q, live p = true ∧ m.dest p < tasksCnt
  idle : ∀ p, live p = true → p ∉ q → m.dest p = taskNoTask ∧ m.next p = 0
  place : ∀ p, live p = true → p ≠ 0 ∧ p < listMax

/-- The queued messages for a task. -/
def Messages.waiting (m : Messages) (q : List ℕ) (t : ℕ) : List ℕ := q.filter fun p => m.dest p = t

section Queue

variable {tasksCnt t p : ℕ} {live : ℕ → Bool} {m : Messages} {q : List ℕ}

theorem Queued.length_le (h : Queued tasksCnt live m q) : q.length ≤ listMax :=
  length_le_of_lt h.list.nodup fun p hp => (h.place p (h.queued p hp).1).2

theorem Queued.dest_ne (h : Queued tasksCnt live m q) (hcnt : tasksCnt ≤ taskNoTask) (hp : p ∈ q) :
    m.dest p ≠ taskNoTask := by
  have hdest := (h.queued p hp).2
  omega

/-- `osal_msg_deallocate` frees what is not queued. -/
theorem osalMsgDeallocate_iff (h : Queued tasksCnt live m q) (hcnt : tasksCnt ≤ taskNoTask)
    (hp : live p = true) : osalMsgDeallocate p m = true ↔ p ∉ q := by
  rw [osalMsgDeallocate, decide_eq_true_iff]
  constructor
  · intro hdest hmem
    exact h.dest_ne hcnt hmem hdest
  · intro hmem
    exact (h.idle p hp hmem).1

/-- Only the events are different. -/
theorem Queued.congr {m' : Messages} (h : Queued tasksCnt live m q) (hnext : m'.next = m.next)
    (hdest : m'.dest = m.dest) (hhead : m'.qHead = m.qHead) : Queued tasksCnt live m' q := by
  constructor
  · rw [hnext, hhead]
    exact h.list
  · rw [hdest]
    exact h.queued
  · rw [hdest, hnext]
    exact h.idle
  · exact h.place

/-- **A message is hung behind the last.** -/
theorem osalMsgSend_queued (h : Queued tasksCnt live m q) (ht : t < tasksCnt)
    (hp : live p = true) (hmem : p ∉ q) : ∃ m',
      osalMsgSend tasksCnt t p m = some (m', .success) ∧ Queued tasksCnt live m' (q ++ [p]) ∧
        m'.tasksEvents = m.tasksEvents ∧ m'.dest = Function.update m.dest p t := by
  obtain ⟨hidle, hnext⟩ := h.idle p hp hmem
  obtain ⟨next', a', happend, hlist, hframe⟩ := h.list.append hmem (h.place p hp).1 h.length_le
  refine ⟨{ m with next := next', qHead := a', dest := Function.update m.dest p t }, ?_, ?_, rfl,
    rfl⟩
  · rw [osalMsgSend, if_neg (by omega), if_neg (by simp [hidle, hnext]), osalMsgEnqueue, happend]
    rfl
  · refine ⟨hlist, fun x hx => ?_, fun x hx hxq => ?_, h.place⟩
    · rcases List.mem_append.mp hx with hx | hx
      · have hne : x ≠ p := fun h => hmem (h ▸ hx)
        dsimp only
        rw [Function.update_of_ne hne]
        exact h.queued x hx
      · obtain rfl := List.mem_singleton.mp hx
        dsimp only
        rw [Function.update_self]
        exact ⟨hp, ht⟩
    · rw [List.mem_append, List.mem_singleton, not_or] at hxq
      dsimp only
      rw [Function.update_of_ne hxq.2, hframe x hxq.1 hxq.2]
      exact h.idle x hx hxq.1

/-- A message that is queued already stays where it is. -/
theorem osalMsgSend_of_mem (h : Queued tasksCnt live m q) (hcnt : tasksCnt ≤ taskNoTask)
    (ht : t < tasksCnt) (hmem : p ∈ q) :
    osalMsgSend tasksCnt t p m = some (m, .invalidMsgPointer false) := by
  have hdest := h.dest_ne hcnt hmem
  rw [osalMsgSend, if_neg (by omega), if_pos (Or.inr hdest), osalMsgDeallocate,
    decide_eq_false hdest]

/-- What `osal_msg_receive` does to the events: it says whether another message waits. -/
def Messages.signal (m : Messages) (tasksCnt t : ℕ) (another : Prop) [Decidable another] :
    Messages :=
  if another then osalSetEvent tasksCnt t sysEventMsg m else osalClearEvent tasksCnt t sysEventMsg m

theorem signal_fields (m : Messages) (tasksCnt t : ℕ) (another : Prop) [Decidable another] :
    (m.signal tasksCnt t another).next = m.next ∧ (m.signal tasksCnt t another).dest = m.dest ∧
      (m.signal tasksCnt t another).qHead = m.qHead := by
  rw [Messages.signal, osalSetEvent, osalClearEvent]
  split
  · split
    · exact ⟨rfl, rfl, rfl⟩
    · exact ⟨rfl, rfl, rfl⟩
  · split
    · exact ⟨rfl, rfl, rfl⟩
    · exact ⟨rfl, rfl, rfl⟩

theorem signalled_signal {another : Prop} [Decidable another] (ht : t < tasksCnt) (h : another) :
    (m.signal tasksCnt t another).Signalled t := by
  rw [Messages.signal, if_pos h]
  exact signalled_set ht

/-- The events of the other tasks stay. -/
theorem signal_of_ne (m : Messages) {u : ℕ} (another : Prop) [Decidable another] (hu : u ≠ t) :
    (m.signal tasksCnt t another).tasksEvents u = m.tasksEvents u := by
  rw [Messages.signal, osalSetEvent, osalClearEvent]
  split
  · split
    · exact Function.update_of_ne hu _ _
    · rfl
  · split
    · exact Function.update_of_ne hu _ _
    · rfl

/-- Nothing is signalled that no message waits for. -/
theorem signal_false_ne_zero {u : ℕ} (h : (m.signal tasksCnt t False).tasksEvents u ≠ 0) :
    m.tasksEvents u ≠ 0 := by
  rw [Messages.signal, if_neg not_false, osalClearEvent] at h
  split at h
  · by_cases hu : u = t
    · intro hzero
      rw [hu] at hzero h
      dsimp only at h
      rw [Function.update_self, hzero] at h
      exact h BitVec.zero_and
    · dsimp only at h
      rwa [Function.update_of_ne hu] at h
  · exact h

/-- **Nothing waits**, so nothing is returned. -/
theorem osalMsgReceive_nil (h : Queued tasksCnt live m q) (hwait : m.waiting q t = []) :
    osalMsgReceive tasksCnt t m = some (m.signal tasksCnt t False, 0) := by
  have hnone : ∀ x ∈ q, m.dest x ≠ t := by
    intro x hx hdest
    exact List.filter_eq_nil_iff.mp hwait x hx (decide_eq_true hdest)
  obtain ⟨k, hk⟩ := Nat.exists_eq_add_of_le h.length_le
  have hrun := receiveLoop_skip 0 (k + 1) h.list.seg h.list.zero_notMem hnone
  rw [← Nat.add_assoc, ← hk] at hrun
  rw [osalMsgReceive, hrun]
  simp [osalMsgReceiveLoop, Messages.signal]

/-- **The first message that waits is taken out.** -/
theorem osalMsgReceive_cons (h : Queued tasksCnt live m q) {rest : List ℕ}
    (hwait : m.waiting q t = p :: rest) : ∃ m' q',
      osalMsgReceive tasksCnt t m = some (m', p) ∧ Queued tasksCnt live m' q' ∧
        q'.length < q.length ∧ (∀ x ∈ q', x ∈ q ∧ m'.dest x = m.dest x) ∧ m'.waiting q' t = rest ∧
        (∀ u, u ≠ t → m'.waiting q' u = m.waiting q u) ∧
        m'.tasksEvents = (m.signal tasksCnt t (rest ≠ [])).tasksEvents := by
  obtain ⟨pre, post, rfl, hpre, hdest, hrest⟩ := List.filter_eq_cons_iff.mp hwait
  simp only [decide_eq_true_eq] at hpre hdest
  have hnodup := h.list.nodup
  rw [List.nodup_middle, List.nodup_cons] at hnodup
  have hzero := h.list.zero_notMem
  rw [List.mem_append, List.mem_cons, not_or, not_or] at hzero
  -- The loop stops at the next message for the task, or at the end.
  obtain ⟨c, hfront, rfl, hbehind⟩ := seg_append.mp h.list.seg
  obtain ⟨k, hk⟩ := Nat.exists_eq_add_of_le h.length_le
  have hpost : post.length < post.length + 1 + k := by omega
  have hc : c ≠ 0 := Ne.symm hzero.2.1
  obtain ⟨listHdr, hloop, hiff⟩ :=
    receiveLoop_found (pre.getLast?.getD 0) hbehind hzero.2.2 hc hpost
  have hrun : osalMsgReceiveLoop t m (listMax + 1) m.qHead 0 0 =
      some (listHdr, pre.getLast?.getD 0, c) := by
    have hfuel : listMax + 1 = pre.length + (post.length + 1 + k + 1) := by
      rw [hk, List.length_append, List.length_cons]
      omega
    rw [hfuel, receiveLoop_skip 0 _ hfront hzero.1 hpre, osalMsgReceiveLoop, if_neg (by simp [hc])]
    simp only [if_pos hdest, if_neg hc]
    exact hloop
  rw [hrest] at hiff
  obtain ⟨hnext, hdests, hhead⟩ := signal_fields m tasksCnt t (rest ≠ [])
  obtain ⟨hlist, hframe⟩ := h.list.unlink
  have hout : ∀ x ∈ pre ++ post, x ≠ c := fun x hx hxc => hnodup.1 (hxc ▸ hx)
  have hfilter : ∀ u, (osalMsgExtract c (pre.getLast?.getD 0)
      (m.signal tasksCnt t (rest ≠ []))).waiting (pre ++ post) u = m.waiting (pre ++ post) u := by
    intro u
    refine List.filter_congr fun x hx => ?_
    simp only [osalMsgExtract, hdests, Function.update_of_ne (hout x hx)]
  refine ⟨osalMsgExtract c (pre.getLast?.getD 0) (m.signal tasksCnt t (rest ≠ [])), pre ++ post,
    ?_, ⟨?_, ?_, ?_, h.place⟩, ?_, ?_, ?_, ?_, rfl⟩
  · rw [osalMsgReceive, hrun, Option.map_some]
    simp only [hiff, if_pos hc]
    rfl
  · simp only [osalMsgExtract, hnext, hhead]
    exact hlist.congr fun x hx => Function.update_of_ne (hout x hx) _ _
  · intro x hx
    simp only [osalMsgExtract, hdests, Function.update_of_ne (hout x hx)]
    exact h.queued x (by rw [List.mem_append, List.mem_cons]; exact
      (List.mem_append.mp hx).imp_right Or.inr)
  · intro x hx hmem
    simp only [osalMsgExtract, hnext, hhead, hdests]
    by_cases hxc : x = c
    · rw [hxc, Function.update_self, Function.update_self]
      exact ⟨rfl, rfl⟩
    · rw [List.mem_append, not_or] at hmem
      rw [Function.update_of_ne hxc, Function.update_of_ne hxc, hframe x hmem.1]
      exact h.idle x hx (by simp [hmem, hxc])
  · rw [List.length_append, List.length_append, List.length_cons]
    omega
  · intro x hx
    refine ⟨?_, ?_⟩
    · rw [List.mem_append, List.mem_cons]
      exact (List.mem_append.mp hx).imp_right Or.inr
    · simp only [osalMsgExtract, hdests, Function.update_of_ne (hout x hx)]
  · have hnone : pre.filter (fun x => m.dest x = t) = [] :=
      List.filter_eq_nil_iff.mpr fun x hx => by simpa using hpre x hx
    rw [hfilter, Messages.waiting, List.filter_append, hnone, hrest, List.nil_append]
  · intro u hu
    have hne : ¬ m.dest c = u := fun h => hu (h.symm.trans hdest)
    rw [hfilter, Messages.waiting, Messages.waiting, List.filter_append, List.filter_append,
      List.filter_cons_of_neg (by simpa using hne)]

end Queue

end CourseDesign.Osal
