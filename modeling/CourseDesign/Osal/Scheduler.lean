import CourseDesign.Osal.Messages

/-!
# Tasks and interrupts

`osal_run_system`, the tasks it calls and the interrupts that come in between.  Every step is one
critical section, or what lies between two; `osal_msg_send` is two steps, the queueing and the
`osal_set_event`, and anything may happen between them.  A handler that is called with
`SYS_EVENT_MSG` asks for a message first, as `SampleApp_ProcessEvent` and the handlers of the stack
do; what else it does and what it returns is open.

* `Kernel.Ok` — the queue is in order, and whoever has a message waiting is or will be woken.
* `osal_step` — every step keeps this, and follows the mailboxes.
-/

namespace CourseDesign.Osal

open LinkedList Mailbox

/-- The tasks of a build: `tasksCnt`, with no task numbered `TASK_NO_TASK`. -/
structure TaskTable where
  tasksCnt : ℕ
  pos : 0 < tasksCnt
  le : tasksCnt ≤ taskNoTask

/-- Where the main loop is. -/
inductive MainPc where
  /-- It looks at `tasksEvents[idx]`. -/
  | look (idx : ℕ)
  /-- It has found events for the task. -/
  | take (idx : ℕ)
  /-- It has called the task with `SYS_EVENT_MSG`, and no message is fetched yet. -/
  | call (idx : ℕ) (events : BitVec 16)
  /-- It is in the handler of the task. -/
  | handle (idx : ℕ) (events : BitVec 16)
  /-- The handler has returned the events. -/
  | back (idx : ℕ) (events : BitVec 16)

/-- The state of the kernel. -/
structure Kernel where
  msgs : Messages
  /-- The messages that are allocated. -/
  live : ℕ → Bool
  /-- The tasks that a sender has queued a message for and not yet signalled. -/
  owed : List ℕ
  main : MainPc

/-- The steps of the main loop, the handlers and the interrupts. -/
inductive KernelAction where
  | allocate (p : ℕ)
  | deallocate (p : ℕ)
  | send (t p : ℕ)
  | signal (t : ℕ)
  | setEvent (t : ℕ) (flag : BitVec 16)
  | look
  | take
  | receive (p : ℕ)
  | finish (events : BitVec 16)
  | putBack

/-- `osal_mem_free` of a message, if it is freed. -/
def Kernel.freeIf (s : Kernel) (p : ℕ) (freed : Bool) : Kernel :=
  { s with live := if freed then Function.update s.live p false else s.live }

/-- What is left of a send when its message is queued. -/
def Kernel.sent (s : Kernel) (t p : ℕ) : Messages × Sending → Kernel
  | (m, .success) => { s with msgs := m, owed := t :: s.owed }
  | (m, .invalidTask freed) => { s with msgs := m }.freeIf p freed
  | (m, .invalidMsgPointer freed) => { s with msgs := m }.freeIf p freed

/-- The task whose handler runs. -/
def MainPc.running : MainPc → Option (ℕ × BitVec 16)
  | .call idx events => some (idx, events)
  | .handle idx events => some (idx, events)
  | _ => none

/-- The main loop and everything else that happens. -/
def kernel (T : TaskTable) : Machine Kernel KernelAction where
  init :=
    { msgs := ⟨fun _ => 0, fun _ => 0, 0, fun _ => 0⟩
      live := fun _ => false
      owed := []
      main := .look 0 }
  step s
    | .allocate p => Machine.when (p ≠ 0 ∧ p < listMax ∧ s.live p = false)
        { s with msgs := osalMsgAllocate p s.msgs, live := Function.update s.live p true }
    | .deallocate p => Machine.when (s.live p = true) (s.freeIf p (osalMsgDeallocate p s.msgs))
    | .send t p =>
        if s.live p = true then (osalMsgSend T.tasksCnt t p s.msgs).map (s.sent t p) else none
    | .signal t => Machine.when (t ∈ s.owed)
        { s with msgs := osalSetEvent T.tasksCnt t sysEventMsg s.msgs, owed := s.owed.erase t }
    | .setEvent t flag => some { s with msgs := osalSetEvent T.tasksCnt t flag s.msgs }
    | .look =>
        match s.main with
        | .look idx => some { s with
            main := if s.msgs.tasksEvents idx ≠ 0 then .take idx
              else if idx + 1 < T.tasksCnt then .look (idx + 1) else .look 0 }
        | _ => none
    | .take =>
        match s.main with
        | .take idx =>
            let events := s.msgs.tasksEvents idx
            some { s with
              msgs := { s.msgs with tasksEvents := Function.update s.msgs.tasksEvents idx 0 }
              main := if events &&& sysEventMsg ≠ 0 then .call idx events else .handle idx events }
        | _ => none
    | .receive p =>
        s.main.running.bind fun r => (osalMsgReceive T.tasksCnt r.1 s.msgs).bind fun m =>
          Machine.when (m.2 = p) { s with msgs := m.1, main := .handle r.1 r.2 }
    | .finish events =>
        match s.main with
        | .handle idx _ => some { s with main := .back idx events }
        | _ => none
    | .putBack =>
        match s.main with
        | .back idx events => some { s with
            msgs := { s.msgs with
              tasksEvents :=
                Function.update s.msgs.tasksEvents idx (s.msgs.tasksEvents idx ||| events) }
            main := .look 0 }
        | _ => none

/-! ## The invariant -/

/-- The task that the main loop is at. -/
def MainPc.idx : MainPc → ℕ
  | .look idx => idx
  | .take idx => idx
  | .call idx _ => idx
  | .handle idx _ => idx
  | .back idx _ => idx

/-- The main loop has called a task with `SYS_EVENT_MSG` just now. -/
def MainPc.called : MainPc → Bool
  | .call _ _ => true
  | _ => false

/-- The task is woken: its event is set, or a sender will set it, or it was called with it. -/
def Kernel.Woken (s : Kernel) (t : ℕ) : Prop :=
  s.msgs.Signalled t ∨ t ∈ s.owed ∨ ∃ events, s.main = .call t events

/-- The queue is `q`, and every task with a message in it is woken. -/
structure Kernel.Ok (T : TaskTable) (s : Kernel) (q : List ℕ) : Prop where
  queued : Queued T.tasksCnt s.live s.msgs q
  idx_lt : s.main.idx < T.tasksCnt
  woken : ∀ p ∈ q, s.Woken (s.msgs.dest p)

/-- What a step posts and fetches. -/
def Kernel.mail (T : TaskTable) (s : Kernel) : KernelAction → List (Op ℕ ℕ)
  | .send t p => if (osalMsgSend T.tasksCnt t p s.msgs).map Prod.snd = some .success
      then [.post t p] else []
  | .receive p => (s.main.running.map fun r =>
      Op.fetch r.1 (if p = 0 then none else some p)).toList
  | _ => []

/-- The mailboxes hold what waits in the queue. -/
def Kernel.Follows (T : TaskTable) (s : Kernel) (t : ℕ → Fifo.State ℕ) : Prop :=
  ∃ q, s.Ok T q ∧ ∀ i, (t i).items = s.msgs.waiting q i

section Steps

variable {T : TaskTable} {s s' : Kernel} {q : List ℕ} {p t : ℕ}

/-- A step that leaves the queue, the events and the senders alone. -/
theorem Kernel.Ok.main (h : s.Ok T q) {main : MainPc} (hidx : main.idx < T.tasksCnt)
    (hcall : s.main.called = false) : { s with main := main }.Ok T q := by
  refine ⟨h.queued, hidx, fun p hp => ?_⟩
  rcases h.woken p hp with hset | howed | ⟨events, hmain⟩
  · exact Or.inl hset
  · exact Or.inr (Or.inl howed)
  · rw [hmain] at hcall
    cases hcall

theorem ok_allocate (h : s.Ok T q) (hzero : p ≠ 0) (hlt : p < listMax) (hp : s.live p = false) :
    { s with
      msgs := osalMsgAllocate p s.msgs
      live := Function.update s.live p true }.Ok T q ∧
      ∀ x ∈ q, (osalMsgAllocate p s.msgs).dest x = s.msgs.dest x := by
  have hne : ∀ x ∈ q, x ≠ p := by
    rintro x hx rfl
    rw [(h.queued.queued x hx).1] at hp
    cases hp
  have hdest : ∀ x ∈ q, (osalMsgAllocate p s.msgs).dest x = s.msgs.dest x :=
    fun x hx => Function.update_of_ne (hne x hx) _ _
  refine ⟨⟨⟨?_, ?_, ?_, ?_⟩, h.idx_lt, ?_⟩, hdest⟩
  · exact h.queued.list.congr fun x hx => Function.update_of_ne (hne x hx) _ _
  · intro x hx
    dsimp only
    rw [hdest x hx, Function.update_of_ne (hne x hx)]
    exact h.queued.queued x hx
  · intro x hx hmem
    by_cases hxp : x = p
    · rw [hxp]
      exact ⟨Function.update_self _ _ _, Function.update_self _ _ _⟩
    · simp only [Function.update_of_ne hxp] at hx
      simp only [osalMsgAllocate, Function.update_of_ne hxp]
      exact h.queued.idle x hx hmem
  · intro x hx
    by_cases hxp : x = p
    · rw [hxp]
      exact ⟨hzero, hlt⟩
    · simp only [Function.update_of_ne hxp] at hx
      exact h.queued.place x hx
  · intro x hx
    dsimp only
    rw [hdest x hx]
    exact h.woken x hx

/-- A message that is not queued is freed. -/
theorem ok_freeIf (h : s.Ok T q) {freed : Bool} (hfreed : freed = true → p ∉ q) :
    (s.freeIf p freed).Ok T q := by
  cases freed with
  | false => exact h
  | true =>
      have hne : ∀ x ∈ q, x ≠ p := fun x hx hxp => hfreed rfl (hxp ▸ hx)
      have hold : ∀ x, Function.update s.live p false x = true → s.live x = true := by
        intro x hx
        by_cases hxp : x = p
        · rw [hxp, Function.update_self] at hx
          cases hx
        · rwa [Function.update_of_ne hxp] at hx
      refine ⟨⟨h.queued.list, fun x hx => ?_, fun x hx => h.queued.idle x (hold x hx),
        fun x hx => h.queued.place x (hold x hx)⟩, h.idx_lt, h.woken⟩
      have hlive := h.queued.queued x hx
      simp only [Kernel.freeIf, if_true, Function.update_of_ne (hne x hx)]
      exact hlive

/-- Setting events wakes nobody less. -/
theorem ok_setEvent (h : s.Ok T q) (t : ℕ) (flag : BitVec 16) :
    { s with msgs := osalSetEvent T.tasksCnt t flag s.msgs }.Ok T q ∧
      (osalSetEvent T.tasksCnt t flag s.msgs).dest = s.msgs.dest := by
  have hfields : (osalSetEvent T.tasksCnt t flag s.msgs).next = s.msgs.next ∧
      (osalSetEvent T.tasksCnt t flag s.msgs).dest = s.msgs.dest ∧
      (osalSetEvent T.tasksCnt t flag s.msgs).qHead = s.msgs.qHead := by
    rw [osalSetEvent]
    split
    · exact ⟨rfl, rfl, rfl⟩
    · exact ⟨rfl, rfl, rfl⟩
  refine ⟨⟨h.queued.congr hfields.1 hfields.2.1 hfields.2.2, h.idx_lt, fun x hx => ?_⟩, hfields.2.1⟩
  dsimp only
  rw [hfields.2.1]
  exact (h.woken x hx).imp_left Messages.Signalled.set

/-- The signal that a sender owes. -/
theorem ok_signal (h : s.Ok T q) (t : ℕ) :
    { s with
      msgs := osalSetEvent T.tasksCnt t sysEventMsg s.msgs
      owed := s.owed.erase t }.Ok T q := by
  obtain ⟨hset, hdest⟩ := ok_setEvent h t sysEventMsg
  refine ⟨hset.queued, hset.idx_lt, fun x hx => ?_⟩
  have hx' := hset.woken x hx
  by_cases ht : s.msgs.dest x = t
  · refine Or.inl ?_
    dsimp only
    rw [hdest, ht]
    exact signalled_set (ht ▸ (h.queued.queued x hx).2)
  · refine hx'.imp_right (Or.imp_left fun howed => ?_)
    dsimp only at howed ⊢
    rw [hdest] at howed ⊢
    exact (List.mem_erase_of_ne ht).mpr howed

/-- **A message that is queued** waits behind those for its task, and its task will be woken. -/
theorem ok_send (h : s.Ok T q) (ht : t < T.tasksCnt) (hp : s.live p = true) (hmem : p ∉ q) : ∃ m,
    osalMsgSend T.tasksCnt t p s.msgs = some (m, .success) ∧
      (s.sent t p (m, .success)).Ok T (q ++ [p]) ∧
      ∀ i, m.waiting (q ++ [p]) i = s.msgs.waiting q i ++ if i = t then [p] else [] := by
  obtain ⟨m, hsend, hqueued, hevents, hdest⟩ := osalMsgSend_queued h.queued ht hp hmem
  have hold : ∀ x ∈ q, m.dest x = s.msgs.dest x := by
    intro x hx
    have hxp : x ≠ p := fun hxp => hmem (hxp ▸ hx)
    rw [hdest, Function.update_of_ne hxp]
  have hnew : m.dest p = t := by
    rw [hdest, Function.update_self]
  refine ⟨m, hsend, ⟨hqueued, h.idx_lt, fun x hx => ?_⟩, fun i => ?_⟩
  · rcases List.mem_append.mp hx with hx | hx
    · have hx' := h.woken x hx
      rw [← hold x hx] at hx'
      rcases hx' with hset | howed | hcall
      · refine Or.inl ?_
        rw [Messages.Signalled, Kernel.sent, hevents]
        exact hset
      · exact Or.inr (Or.inl (List.mem_cons_of_mem _ howed))
      · exact Or.inr (Or.inr hcall)
    · obtain rfl := List.mem_singleton.mp hx
      exact Or.inr (Or.inl (hnew ▸ List.mem_cons_self))
  · have hsame : m.waiting q i = s.msgs.waiting q i :=
      List.filter_congr fun x hx => by rw [hold x hx]
    rw [← hsame, Messages.waiting, List.filter_append]
    congr 1
    by_cases hi : i = t
    · rw [if_pos hi, List.filter_cons_of_pos (by simp [hnew, hi]), List.filter_nil]
    · rw [if_neg hi, List.filter_cons_of_neg (by simpa [hnew] using Ne.symm hi), List.filter_nil]

/-- A task that is called with `SYS_EVENT_MSG` is woken, and the others stay so. -/
theorem ok_take (h : s.Ok T q) {idx : ℕ} (hmain : s.main = .take idx) :
    { s with
      msgs := { s.msgs with tasksEvents := Function.update s.msgs.tasksEvents idx 0 }
      main := if s.msgs.tasksEvents idx &&& sysEventMsg ≠ 0 then
          .call idx (s.msgs.tasksEvents idx)
        else .handle idx (s.msgs.tasksEvents idx) }.Ok T q := by
  have hidx : idx < T.tasksCnt := by
    have hlt := h.idx_lt
    rwa [hmain] at hlt
  refine ⟨h.queued.congr rfl rfl rfl, ?_, fun x hx => ?_⟩
  · dsimp only
    split
    · exact hidx
    · exact hidx
  · have hx' := h.woken x hx
    rw [Kernel.Woken, hmain] at hx'
    rcases hx' with hset | howed | ⟨events, hcall⟩
    · by_cases hdest : s.msgs.dest x = idx
      · rw [Messages.Signalled, hdest] at hset
        refine Or.inr (Or.inr ⟨s.msgs.tasksEvents idx, ?_⟩)
        dsimp only
        rw [if_pos hset, hdest]
      · refine Or.inl ?_
        rw [Messages.Signalled]
        dsimp only
        rw [Function.update_of_ne hdest]
        exact hset
    · exact Or.inr (Or.inl howed)
    · cases hcall

/-- **A handler that asks for a message** gets the first that waits, and is woken again if there is
another. -/
theorem ok_receive (h : s.Ok T q) {idx : ℕ} {events : BitVec 16}
    (hmain : s.main.running = some (idx, events)) : ∃ m q',
      osalMsgReceive T.tasksCnt idx s.msgs = some (m, (s.msgs.waiting q idx).head?.getD 0) ∧
        { s with msgs := m, main := .handle idx events }.Ok T q' ∧
        m.waiting q' idx = (s.msgs.waiting q idx).tail ∧
        (∀ u, u ≠ idx → m.waiting q' u = s.msgs.waiting q u) ∧
        (q'.length < q.length ∨ q' = q ∧ ∀ u, m.tasksEvents u ≠ 0 → s.msgs.tasksEvents u ≠ 0) := by
  have hidx : idx < T.tasksCnt := by
    have hlt := h.idx_lt
    cases hpc : s.main with
    | call _ _ =>
        rw [hpc] at hmain hlt
        obtain ⟨rfl, -⟩ := Prod.mk.inj (Option.some.inj hmain)
        exact hlt
    | handle _ _ =>
        rw [hpc] at hmain hlt
        obtain ⟨rfl, -⟩ := Prod.mk.inj (Option.some.inj hmain)
        exact hlt
    | look _ | take _ | back _ _ =>
        rw [hpc] at hmain
        cases hmain
  -- Who is woken otherwise than by being called with the event.
  have hother : ∀ x ∈ q, s.msgs.dest x ≠ idx → s.msgs.Signalled (s.msgs.dest x) ∨
      s.msgs.dest x ∈ s.owed := by
    intro x hx hne
    rcases h.woken x hx with hset | howed | ⟨events', hcall⟩
    · exact Or.inl hset
    · exact Or.inr howed
    · rw [hcall] at hmain
      obtain ⟨hdest, -⟩ := Prod.mk.inj (Option.some.inj hmain)
      exact absurd hdest hne
  cases hwait : s.msgs.waiting q idx with
  | nil =>
      obtain ⟨hnext, hdest, hhead⟩ := signal_fields s.msgs T.tasksCnt idx False
      have hsame : ∀ u, (s.msgs.signal T.tasksCnt idx False).waiting q u = s.msgs.waiting q u := by
        intro u
        rw [Messages.waiting, Messages.waiting, hdest]
      refine ⟨s.msgs.signal T.tasksCnt idx False, q, osalMsgReceive_nil h.queued hwait,
        ⟨h.queued.congr hnext hdest hhead, hidx, fun x hx => ?_⟩, ?_, fun u _ => hsame u,
        Or.inr ⟨rfl, fun u hu => signal_false_ne_zero hu⟩⟩
      · have hne : s.msgs.dest x ≠ idx := by
          intro hx'
          exact List.filter_eq_nil_iff.mp hwait x hx (decide_eq_true hx')
        dsimp only
        rw [hdest]
        rcases hother x hx hne with hset | howed
        · refine Or.inl ?_
          rw [Messages.Signalled, signal_of_ne s.msgs False hne]
          exact hset
        · exact Or.inr (Or.inl howed)
      · rw [hsame, hwait]
        rfl
  | cons p rest =>
      obtain ⟨m, q', hrun, hqueued, hshorter, hmem, hrest, hothers, hevents⟩ :=
        osalMsgReceive_cons h.queued hwait
      refine ⟨m, q', hrun, ⟨hqueued, hidx, fun x hx => ?_⟩, hrest, hothers, Or.inl hshorter⟩
      obtain ⟨hxq, hdest⟩ := hmem x hx
      by_cases hx' : s.msgs.dest x = idx
      · refine Or.inl ?_
        have hne : rest ≠ [] := by
          rw [← hrest]
          exact List.ne_nil_of_mem (List.mem_filter.mpr ⟨hx, by simp [hdest, hx']⟩)
        dsimp only
        rw [Messages.Signalled, hevents, hdest, hx']
        exact signalled_signal hidx hne
      · dsimp only
        rw [hdest]
        rcases hother x hxq hx' with hset | howed
        · refine Or.inl ?_
          rw [Messages.Signalled, hevents, signal_of_ne s.msgs _ hx']
          exact hset
        · exact Or.inr (Or.inl howed)

/-- The events that a handler gives back. -/
theorem ok_putBack (h : s.Ok T q) {idx : ℕ} {events : BitVec 16}
    (hmain : s.main = .back idx events) :
    { s with
      msgs := { s.msgs with
        tasksEvents := Function.update s.msgs.tasksEvents idx (s.msgs.tasksEvents idx ||| events) }
      main := .look 0 }.Ok T q := by
  have hidx : idx < T.tasksCnt := by
    have hlt := h.idx_lt
    rwa [hmain] at hlt
  have hset := (ok_setEvent h idx events).1
  rw [osalSetEvent, if_pos hidx] at hset
  refine hset.main T.pos ?_
  dsimp only
  rw [hmain]
  rfl

/-! ## One step -/

variable {t : ℕ → Fifo.State ℕ}

/-- Steps that post and fetch nothing. -/
theorem follows_quiet {s₁ : Kernel} (hok : s₁.Ok T q)
    (hitems : ∀ i, (t i).items = s.msgs.waiting q i)
    (hdest : ∀ x ∈ q, s₁.msgs.dest x = s.msgs.dest x) :
    ∃ t', (mailboxes ℕ ℕ).exec t [] = some t' ∧ s₁.Follows T t' := by
  refine ⟨t, rfl, q, hok, fun i => ?_⟩
  rw [hitems]
  exact (List.filter_congr fun x hx => by rw [hdest x hx]).symm

/-- A message that is posted. -/
theorem follows_post (hok : s.Ok T q) (hitems : ∀ i, (t i).items = s.msgs.waiting q i) {u : ℕ}
    (hu : u < T.tasksCnt) (hp : s.live p = true) (hmem : p ∉ q) : ∃ m,
      osalMsgSend T.tasksCnt u p s.msgs = some (m, .success) ∧
        ∃ t', (mailboxes ℕ ℕ).exec t [.post u p] = some t' ∧
          (s.sent u p (m, .success)).Follows T t' := by
  obtain ⟨m, hsend, hok', hwait⟩ := ok_send hok hu hp hmem
  refine ⟨m, hsend, _, rfl, q ++ [p], hok', fun i => ?_⟩
  rw [Kernel.sent]
  dsimp only
  rw [hwait]
  by_cases hi : i = u
  · rw [hi, if_pos rfl, Function.update_self, hitems]
  · rw [if_neg hi, Function.update_of_ne hi, hitems, List.append_nil]

/-- A message that is fetched, or the answer that none waits. -/
theorem follows_fetch (hok : s.Ok T q) (hitems : ∀ i, (t i).items = s.msgs.waiting q i) {idx : ℕ}
    {events : BitVec 16} (hmain : s.main.running = some (idx, events)) : ∃ m p,
      osalMsgReceive T.tasksCnt idx s.msgs = some (m, p) ∧
        ∃ t', (mailboxes ℕ ℕ).exec t [.fetch idx (if p = 0 then none else some p)] = some t' ∧
          { s with msgs := m, main := .handle idx events }.Follows T t' := by
  obtain ⟨m, q', hrun, hok', htail, hothers, -⟩ := ok_receive hok hmain
  refine ⟨m, _, hrun, ?_⟩
  cases hwait : s.msgs.waiting q idx with
  | nil =>
      refine ⟨t, ?_, q', hok', fun i => ?_⟩
      · have hempty : (t idx).items = [] := by
          rw [hitems, hwait]
        simp [mailboxes, Machine.exec, Machine.when, hempty]
      · by_cases hi : i = idx
        · rw [hi, hitems, hwait, htail, hwait]
          rfl
        · rw [hitems, hothers i hi]
  | cons p rest =>
      have hp : p ∈ q := (List.mem_filter.mp (hwait ▸ List.mem_cons_self)).1
      have hzero : p ≠ 0 := hok.queued.list.ne_zero hp
      have hhead : (t idx).items.head? = some p := by
        rw [hitems, hwait]
        rfl
      refine ⟨Function.update t idx { t idx with
        items := (t idx).items.tail
        got := (t idx).got ++ [p] }, ?_, q', hok', fun i => ?_⟩
      · simp [mailboxes, Machine.exec, Fifo.fifo, Machine.when, hhead, hzero]
      · by_cases hi : i = idx
        · rw [hi, Function.update_self, htail, hitems]
        · rw [Function.update_of_ne hi, hitems, hothers i hi]

/-- **Every step keeps the queue in order and wakes whom it must**, and posts and fetches as the
mailboxes do. -/
theorem osal_step {a : KernelAction} (hR : s.Follows T t) (hstep : (kernel T).step s a = some s') :
    ∃ t', (mailboxes ℕ ℕ).exec t (s.mail T a) = some t' ∧ s'.Follows T t' := by
  obtain ⟨q, hok, hitems⟩ := hR
  cases a with
  | allocate p =>
      obtain ⟨⟨hzero, hlt, hp⟩, rfl⟩ := Machine.when_eq_some.mp hstep
      obtain ⟨hok', hdest⟩ := ok_allocate hok hzero hlt hp
      exact follows_quiet hok' hitems hdest
  | deallocate p =>
      obtain ⟨hp, rfl⟩ := Machine.when_eq_some.mp hstep
      exact follows_quiet (ok_freeIf hok (osalMsgDeallocate_iff hok.queued T.le hp).mp) hitems
        fun x _ => rfl
  | send u p =>
      simp only [kernel] at hstep
      split at hstep
      case isTrue hp =>
          rcases Nat.lt_or_ge u T.tasksCnt with hu | hu
          · by_cases hmem : p ∈ q
            · have hsend := osalMsgSend_of_mem hok.queued T.le hu hmem
              rw [hsend] at hstep
              obtain rfl := Option.some.inj hstep
              rw [Kernel.mail, hsend]
              exact follows_quiet (ok_freeIf hok fun h => absurd h Bool.false_ne_true) hitems
                fun x _ => rfl
            · obtain ⟨m, hsend, hpost⟩ := follows_post hok hitems hu hp hmem
              rw [hsend] at hstep
              obtain rfl := Option.some.inj hstep
              rw [Kernel.mail, hsend]
              exact hpost
          · have hsend : osalMsgSend T.tasksCnt u p s.msgs =
                some (s.msgs, .invalidTask (osalMsgDeallocate p s.msgs)) := if_pos hu
            rw [hsend] at hstep
            obtain rfl := Option.some.inj hstep
            rw [Kernel.mail, hsend]
            exact follows_quiet (ok_freeIf hok (osalMsgDeallocate_iff hok.queued T.le hp).mp) hitems
              fun x _ => rfl
      case isFalse => cases hstep
  | signal u =>
      obtain ⟨-, rfl⟩ := Machine.when_eq_some.mp hstep
      refine follows_quiet (ok_signal hok u) hitems fun x _ => ?_
      rw [(ok_setEvent hok u sysEventMsg).2]
  | setEvent u flag =>
      obtain rfl := Option.some.inj hstep
      obtain ⟨hok', hdest⟩ := ok_setEvent hok u flag
      exact follows_quiet hok' hitems fun x _ => by rw [hdest]
  | look =>
      simp only [kernel] at hstep
      split at hstep
      case h_1 idx hmain =>
          obtain rfl := Option.some.inj hstep
          have hlt := hok.idx_lt
          rw [hmain] at hlt
          refine follows_quiet (hok.main ?_ ?_) hitems fun x _ => rfl
          · split
            · exact hlt
            · split
              · assumption
              · exact T.pos
          · rw [hmain]
            rfl
      case h_2 => cases hstep
  | take =>
      simp only [kernel] at hstep
      split at hstep
      case h_1 idx hmain =>
          obtain rfl := Option.some.inj hstep
          exact follows_quiet (ok_take hok hmain) hitems fun x _ => rfl
      case h_2 => cases hstep
  | receive p =>
      simp only [kernel, Option.bind_eq_some_iff, Machine.when_eq_some] at hstep
      obtain ⟨⟨idx, events⟩, hmain, ⟨m, r⟩, hrun, rfl, rfl⟩ := hstep
      obtain ⟨m', p, hrun', hfetch⟩ := follows_fetch hok hitems hmain
      rw [hrun] at hrun'
      obtain ⟨rfl, rfl⟩ := Prod.mk.inj (Option.some.inj hrun')
      rw [Kernel.mail, hmain]
      exact hfetch
  | finish events =>
      simp only [kernel] at hstep
      split at hstep
      case h_1 idx events' hmain =>
          obtain rfl := Option.some.inj hstep
          have hlt := hok.idx_lt
          rw [hmain] at hlt
          refine follows_quiet (hok.main hlt ?_) hitems fun x _ => rfl
          rw [hmain]
          rfl
      case h_2 => cases hstep
  | putBack =>
      simp only [kernel] at hstep
      split at hstep
      case h_1 idx events hmain =>
          obtain rfl := Option.some.inj hstep
          exact follows_quiet (ok_putBack hok hmain) hitems fun x _ => rfl
      case h_2 => cases hstep

end Steps

/-! ## Runs -/

section Runs

variable {T : TaskTable} {s : Kernel}

theorem follows_init (T : TaskTable) : (kernel T).init.Follows T (mailboxes ℕ ℕ).init := by
  refine ⟨[], ⟨⟨isList_nil.mpr rfl, ?_, ?_, ?_⟩, T.pos, ?_⟩, fun i => rfl⟩
  · intro p hp
    cases hp
  · intro p hp
    cases hp
  · intro p hp
    cases hp
  · intro p hp
    cases hp

/-- Every run follows the mailboxes. -/
theorem osal_run {as : List KernelAction} (hex : (kernel T).exec (kernel T).init as = some s) :
    ∃ t, (mailboxes ℕ ℕ).exec (mailboxes ℕ ℕ).init
      ((kernel T).trace (Kernel.mail T) (kernel T).init as) = some t ∧ s.Follows T t := by
  have hstep : ∀ ⦃s a s' t⦄, s.Follows T t → True → (kernel T).step s a = some s' →
      ∃ t', (mailboxes ℕ ℕ).exec t (s.mail T a) = some t' ∧ s'.Follows T t' :=
    fun s a s' t hR _ hstep => osal_step hR hstep
  exact Machine.exec_simulates hstep (follows_init T)
    (Machine.along_of_forall (fun _ _ => trivial) _) hex

/-- Two messages for one task and one for another, with an interrupt between a queueing and its
signal. -/
def someMessages : List KernelAction :=
  [.allocate 10, .allocate 20, .allocate 30, .send 2 10, .send 1 20, .signal 1, .look, .look, .take,
    .signal 2, .receive 20, .send 2 30, .deallocate 20, .receive 0, .finish 0, .putBack, .look,
    .look, .look, .take, .receive 10, .signal 2, .receive 30]

/-- The tasks of a build without optional ones. -/
def fiveTasks : TaskTable where
  tasksCnt := 5
  pos := by decide
  le := by decide

/-- **Messages arrive once and in order.**  However the tasks and the interrupts come in between,
each task has received a beginning of what was sent to it, and the rest waits for it in the queue;
and `NULL` is returned only if nothing does. -/
theorem messages_follow_mailboxes (as : List KernelAction)
    (hex : (kernel T).exec (kernel T).init as = some s) :
    ∃ t, (mailboxes ℕ ℕ).exec (mailboxes ℕ ℕ).init
        ((kernel T).trace (Kernel.mail T) (kernel T).init as) = some t ∧
      (∀ i, (t i).Conserved) ∧
      ∃ q, IsList s.msgs.next s.msgs.qHead q ∧ ∀ i, (t i).items = s.msgs.waiting q i := by
  obtain ⟨t, ht, q, hok, hitems⟩ := osal_run hex
  exact ⟨t, ht, conserved_exec ht, q, hok.queued.list, hitems⟩

theorem messages_follow_mailboxes_somemessages : ∃ (s : Kernel) (t : ℕ → Fifo.State ℕ),
    (mailboxes ℕ ℕ).exec (mailboxes ℕ ℕ).init ((kernel fiveTasks).trace (Kernel.mail fiveTasks)
        (kernel fiveTasks).init someMessages) = some t ∧
      (∀ i, (t i).Conserved) ∧
      ∃ q, IsList s.msgs.next s.msgs.qHead q ∧ ∀ i, (t i).items = s.msgs.waiting q i := by
  obtain ⟨s, hs, -⟩ := Machine.exists_exec (kernel fiveTasks) (kernel fiveTasks).init someMessages
    (fun _ => True) (by decide)
  exact ⟨s, messages_follow_mailboxes someMessages hs⟩

/-- **No wake-up is lost.**  In every state that is reached, every message in the queue is
allocated, and its task has its event set, or will have it when a sender goes on, or was called with
it and is about to ask.  So when no event is set, no sender is between and nobody is about to ask,
the queue is empty. -/
theorem waiting_tasks_woken (as : List KernelAction)
    (hex : (kernel T).exec (kernel T).init as = some s) :
    (∃ q, IsList s.msgs.next s.msgs.qHead q ∧
      ∀ p ∈ q, s.live p = true ∧ s.msgs.dest p < T.tasksCnt ∧ s.Woken (s.msgs.dest p)) ∧
    ((∀ t, t < T.tasksCnt → s.msgs.tasksEvents t = 0) → s.owed = [] → s.main.called = false →
      s.msgs.qHead = 0) := by
  obtain ⟨t, -, q, hok, -⟩ := osal_run hex
  refine ⟨⟨q, hok.queued.list, fun p hp => ?_⟩, fun hevents howed hcall => ?_⟩
  · obtain ⟨hlive, hdest⟩ := hok.queued.queued p hp
    exact ⟨hlive, hdest, hok.woken p hp⟩
  · cases q with
    | nil => exact isList_nil.mp hok.queued.list
    | cons p q =>
        exfalso
        rcases hok.woken p List.mem_cons_self with hset | howed' | ⟨events, hmain⟩
        · rw [Messages.Signalled, hevents _ (hok.queued.queued p List.mem_cons_self).2] at hset
          exact hset (BitVec.zero_and)
        · rw [howed] at howed'
          cases howed'
        · rw [hmain] at hcall
          cases hcall

theorem waiting_tasks_woken_somemessages : ∃ s : Kernel, (s.msgs.qHead = 10 ∧ s.owed = [2]) ∧
    (∃ q, IsList s.msgs.next s.msgs.qHead q ∧
      ∀ p ∈ q, s.live p = true ∧ s.msgs.dest p < 5 ∧ s.Woken (s.msgs.dest p)) := by
  -- The two messages wait, the one for a task that has its event and the other for one that is owed.
  obtain ⟨s, hs, hwait⟩ := Machine.exists_exec (kernel fiveTasks) (kernel fiveTasks).init
    (someMessages.take 8) (fun s => s.msgs.qHead = 10 ∧ s.owed = [2]) (by decide)
  exact ⟨s, hwait, (waiting_tasks_woken (someMessages.take 8) hs).1⟩

/-- **A queued message is safe.**  In every state that is reached, every walk along the queue ends;
an allocated message that is not queued is sent or freed, and one that is queued is neither: a
second `osal_msg_send` is refused and changes nothing, and `osal_msg_deallocate` leaves it alone. -/
theorem queued_message_safe (as : List KernelAction)
    (hex : (kernel T).exec (kernel T).init as = some s) : ∃ q,
    IsList s.msgs.next s.msgs.qHead q ∧
      (∀ t events, s.main.running = some (t, events) →
        osalMsgReceive T.tasksCnt t s.msgs ≠ none) ∧
      ∀ t p, t < T.tasksCnt → s.live p = true →
        (p ∈ q → osalMsgSend T.tasksCnt t p s.msgs = some (s.msgs, .invalidMsgPointer false) ∧
          osalMsgDeallocate p s.msgs = false) ∧
        (p ∉ q → (∃ m, osalMsgSend T.tasksCnt t p s.msgs = some (m, .success)) ∧
          osalMsgDeallocate p s.msgs = true) := by
  obtain ⟨t, -, q, hok, -⟩ := osal_run hex
  refine ⟨q, hok.queued.list, fun u events hmain => ?_,
    fun u p hu hp => ⟨fun hmem => ?_, fun hmem => ?_⟩⟩
  · obtain ⟨m, q', hrun, -⟩ := ok_receive hok hmain
    rw [hrun]
    exact Option.some_ne_none _
  · refine ⟨osalMsgSend_of_mem hok.queued T.le hu hmem, ?_⟩
    rw [Bool.eq_false_iff, ne_eq, osalMsgDeallocate_iff hok.queued T.le hp, not_not]
    exact hmem
  · obtain ⟨m, hsend, -⟩ := osalMsgSend_queued hok.queued hu hp hmem
    exact ⟨⟨m, hsend⟩, (osalMsgDeallocate_iff hok.queued T.le hp).mpr hmem⟩

theorem queued_message_safe_twice : ∃ s : Kernel,
    osalMsgSend 5 2 30 s.msgs = some (s.msgs, .invalidMsgPointer false) := by
  obtain ⟨s, hs, hlive, hdest⟩ := Machine.exists_exec (kernel fiveTasks) (kernel fiveTasks).init
    [.allocate 30, .send 2 30] (fun s => s.live 30 = true ∧ s.msgs.dest 30 = 2) (by decide)
  obtain ⟨q, -, -, hsafe⟩ := queued_message_safe [.allocate 30, .send 2 30] hs
  refine ⟨s, ((hsafe 2 30 (by decide) hlive).1 ?_).1⟩
  by_contra hmem
  have hfree := ((hsafe 2 30 (by decide) hlive).2 hmem).2
  rw [osalMsgDeallocate, hdest] at hfree
  exact absurd hfree (by decide)

end Runs

end CourseDesign.Osal
