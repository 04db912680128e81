import CourseDesign.Osal.Scheduler

/-!
# The queue can always be emptied

No state that the tasks and the interrupts lead to is stuck: if the senders finish what they began
and the handlers ask for their messages and return, the main loop gets to every message that waits.

* `Leads` — a state is reached from another by such steps alone.
* `leads_shorter` — while a message waits, they lead to a shorter queue.
-/

namespace CourseDesign.Osal

open LinkedList

/-- A step of the main loop, of a handler that only receives, or the signal that a sender owes. -/
def KernelAction.Drains : KernelAction → Prop
  | .signal _ => True
  | .look => True
  | .take => True
  | .receive _ => True
  | .finish events => events = 0
  | .putBack => True
  | _ => False

/-- Such steps lead from one state to another. -/
def Leads (T : TaskTable) (s s' : Kernel) : Prop :=
  ∃ as : List KernelAction, (∀ a ∈ as, a.Drains) ∧ (kernel T).exec s as = some s'

section Leading

variable {T : TaskTable} {s s' s₁ : Kernel} {q : List ℕ}

theorem Leads.refl (s : Kernel) : Leads T s s := ⟨[], by simp, rfl⟩

theorem Leads.trans (h : Leads T s s₁) (h' : Leads T s₁ s') : Leads T s s' := by
  obtain ⟨as, has, hex⟩ := h
  obtain ⟨bs, hbs, hex'⟩ := h'
  refine ⟨as ++ bs, fun a ha => ?_, ((kernel T).exec_append_eq_some).mpr ⟨s₁, hex, hex'⟩⟩
  exact (List.mem_append.mp ha).elim (has a) (hbs a)

theorem Leads.step {a : KernelAction} (ha : a.Drains) (hstep : (kernel T).step s a = some s₁)
    (h : Leads T s₁ s') : Leads T s s' := by
  obtain ⟨as, has, hex⟩ := h
  refine ⟨a :: as, fun b hb => ?_, ((kernel T).exec_cons_eq_some).mpr ⟨s₁, hstep, hex⟩⟩
  rcases List.mem_cons.mp hb with rfl | hb
  · exact ha
  · exact has b hb

/-- The tasks with an event set. -/
def Kernel.ready (T : TaskTable) (s : Kernel) : List ℕ :=
  (List.range T.tasksCnt).filter fun t => s.msgs.tasksEvents t ≠ 0

theorem mem_ready {t : ℕ} : t ∈ s.ready T ↔ t < T.tasksCnt ∧ s.msgs.tasksEvents t ≠ 0 := by
  simp [Kernel.ready]

/-- Fewer tasks are ready when one is no longer and no other has become so. -/
theorem ready_lt {j : ℕ} (hlt : j < T.tasksCnt) (hj : s.msgs.tasksEvents j ≠ 0)
    (hzero : s'.msgs.tasksEvents j = 0)
    (hevents : ∀ t, s'.msgs.tasksEvents t ≠ 0 → s.msgs.tasksEvents t ≠ 0) :
    (s'.ready T).length < (s.ready T).length := by
  have hnotMem : j ∉ s'.ready T := fun hmem => (mem_ready.mp hmem).2 hzero
  have hnodup : (j :: s'.ready T).Nodup :=
    List.nodup_cons.mpr ⟨hnotMem, List.nodup_range.filter _⟩
  have hsub : j :: s'.ready T ⊆ s.ready T := by
    intro t ht
    rcases List.mem_cons.mp ht with rfl | ht
    · exact mem_ready.mpr ⟨hlt, hj⟩
    · obtain ⟨htlt, hne⟩ := mem_ready.mp ht
      exact mem_ready.mpr ⟨htlt, hevents t hne⟩
  exact (List.subperm_of_subset hnodup hsub).length_le

/-- The senders go on. -/
theorem leads_signalled (h : s.Ok T q) : ∃ s', Leads T s s' ∧ s'.Ok T q ∧ s'.owed = [] := by
  generalize howed : s.owed = owed
  induction owed generalizing s with
  | nil => exact ⟨s, Leads.refl s, h, howed⟩
  | cons t owed ih =>
      obtain ⟨s', hlead, hok, hempty⟩ := ih (ok_signal h t) (by simp [howed])
      have hmem : t ∈ s.owed := by
        rw [howed]
        exact List.mem_cons_self
      exact ⟨s', hlead.step (a := .signal t) trivial (Machine.when_eq_some.mpr ⟨hmem, rfl⟩), hok,
        hempty⟩

/-- A step that is taken, in the main loop. -/
theorem step_look {idx : ℕ} (hmain : s.main = .look idx) : (kernel T).step s .look = some { s with
    main := if s.msgs.tasksEvents idx ≠ 0 then .take idx
      else if idx + 1 < T.tasksCnt then .look (idx + 1) else .look 0 } := by
  simp only [kernel, hmain]

/-- The main loop looks on, to a task with an event or to the end. -/
theorem leads_look {idx : ℕ} (h : s.Ok T q) (hmain : s.main = .look idx) : ∃ pc,
    Leads T s { s with main := pc } ∧ { s with main := pc }.Ok T q ∧
      ((∃ j, pc = .take j ∧ s.msgs.tasksEvents j ≠ 0) ∨
        pc = .look 0 ∧ ∀ t, idx ≤ t → t < T.tasksCnt → s.msgs.tasksEvents t = 0) := by
  have hlt : idx < T.tasksCnt := by
    have hidx := h.idx_lt
    rwa [hmain] at hidx
  have hcall : s.main.called = false := by
    rw [hmain]
    rfl
  -- On the number of tasks that are still to be looked at.
  obtain ⟨k, hk⟩ := Nat.exists_eq_add_of_lt hlt
  induction k generalizing idx s with
  | zero =>
      have hstep := step_look (T := T) hmain
      by_cases hevents : s.msgs.tasksEvents idx ≠ 0
      · rw [if_pos hevents] at hstep
        exact ⟨_, (Leads.refl _).step (a := .look) trivial hstep, h.main hlt hcall,
          Or.inl ⟨idx, rfl, hevents⟩⟩
      · rw [if_neg hevents, if_neg (by omega)] at hstep
        refine ⟨_, (Leads.refl _).step (a := .look) trivial hstep, h.main T.pos hcall,
          Or.inr ⟨rfl, fun t hle ht => ?_⟩⟩
        obtain rfl : t = idx := by omega
        exact not_not.mp hevents
  | succ k ih =>
      have hstep := step_look (T := T) hmain
      by_cases hevents : s.msgs.tasksEvents idx ≠ 0
      · rw [if_pos hevents] at hstep
        exact ⟨_, (Leads.refl _).step (a := .look) trivial hstep, h.main hlt hcall,
          Or.inl ⟨idx, rfl, hevents⟩⟩
      · have hnext : idx + 1 < T.tasksCnt := by omega
        rw [if_neg hevents, if_pos hnext] at hstep
        have hok' : { s with main := .look (idx + 1) }.Ok T q := h.main hnext hcall
        obtain ⟨pc, hlead, hok, hend⟩ := ih hok' rfl hnext rfl (by omega)
        refine ⟨pc, hlead.step (a := .look) trivial hstep, hok, hend.imp_right fun hrest => ?_⟩
        refine ⟨hrest.1, fun t hle ht => ?_⟩
        rcases Nat.eq_or_lt_of_le hle with rfl | hlt'
        · exact not_not.mp hevents
        · exact hrest.2 t hlt' ht

/-- **A handler** fetches a message, or returns with no task readier than before. -/
theorem leads_handler {idx : ℕ} {events : BitVec 16} (h : s.Ok T q) (howed : s.owed = [])
    (hmain : s.main.running = some (idx, events)) : ∃ s' q', Leads T s s' ∧ s'.Ok T q' ∧
      s'.owed = [] ∧ (q'.length < q.length ∨ q' = q ∧ s'.main = .look 0 ∧
        ∀ t, s'.msgs.tasksEvents t ≠ 0 → s.msgs.tasksEvents t ≠ 0) := by
  obtain ⟨m, q', hrun, hok, -, -, hshorter⟩ := ok_receive h hmain
  have hstep : (kernel T).step s (.receive ((s.msgs.waiting q idx).head?.getD 0)) =
      some { s with msgs := m, main := .handle idx events } := by
    simp [kernel, hmain, hrun, Machine.when]
  rcases hshorter with hshorter | ⟨rfl, hevents⟩
  · exact ⟨_, q', (Leads.refl _).step (a := .receive _) trivial hstep, hok, howed,
      Or.inl hshorter⟩
  · -- Nothing waits, so the handler returns.
    have hback : { s with msgs := m, main := .back idx 0 }.Ok T q' :=
      hok.main hok.idx_lt rfl
    have hput := ok_putBack hback rfl
    refine ⟨_, q', ((((Leads.refl _).step (a := .putBack) trivial rfl).step (a := .finish 0) rfl
      rfl).step (a := .receive _) trivial hstep), hput, howed, Or.inr ⟨rfl, rfl, fun t ht => ?_⟩⟩
    dsimp only at ht
    refine hevents t fun hzero => ht ?_
    by_cases hidx : t = idx
    · rw [hidx, Function.update_self, ← hidx, hzero]
      exact BitVec.zero_or
    · rw [Function.update_of_ne hidx, hzero]

/-- **A task with an event** is called, and a message is fetched or the task is ready no longer. -/
theorem leads_take {idx : ℕ} (h : s.Ok T q) (howed : s.owed = []) (hmain : s.main = .take idx) :
    ∃ s' q', Leads T s s' ∧ s'.Ok T q' ∧ s'.owed = [] ∧
      (q'.length < q.length ∨ q' = q ∧ s'.main = .look 0 ∧ s'.msgs.tasksEvents idx = 0 ∧
        ∀ t, s'.msgs.tasksEvents t ≠ 0 → s.msgs.tasksEvents t ≠ 0) := by
  have htake := ok_take h hmain
  have hstep : (kernel T).step s .take = some { s with
      msgs := { s.msgs with tasksEvents := Function.update s.msgs.tasksEvents idx 0 }
      main := if s.msgs.tasksEvents idx &&& sysEventMsg ≠ 0 then
          .call idx (s.msgs.tasksEvents idx)
        else .handle idx (s.msgs.tasksEvents idx) } := by
    simp only [kernel, hmain]
  have hrunning : (if s.msgs.tasksEvents idx &&& sysEventMsg ≠ 0 then
      MainPc.call idx (s.msgs.tasksEvents idx)
        else .handle idx (s.msgs.tasksEvents idx)).running =
          some (idx, s.msgs.tasksEvents idx) := by
    split
    · rfl
    · rfl
  obtain ⟨s', q', hlead, hok, hempty, hend⟩ := leads_handler htake howed hrunning
  refine ⟨s', q', hlead.step (a := .take) trivial hstep, hok, hempty,
    hend.imp_right fun hlook => ?_⟩
  obtain ⟨hq, hpc, hevents⟩ := hlook
  refine ⟨hq, hpc, ?_, fun t ht => ?_⟩
  · by_contra hne
    exact hevents idx hne (Function.update_self _ _ _)
  · have hne := hevents t ht
    dsimp only at hne
    by_cases hidx : t = idx
    · rw [hidx, Function.update_self] at hne
      exact absurd rfl hne
    · rwa [Function.update_of_ne hidx] at hne

/-- The main loop comes round, or a message is fetched before. -/
theorem leads_round (h : s.Ok T q) (howed : s.owed = []) : ∃ s' q', Leads T s s' ∧ s'.Ok T q' ∧
    s'.owed = [] ∧ (q'.length < q.length ∨ q' = q ∧ s'.main = .look 0) := by
  cases hmain : s.main with
  | look idx =>
      obtain ⟨pc, hlead, hok, ⟨j, rfl, -⟩ | ⟨rfl, -⟩⟩ := leads_look h hmain
      · obtain ⟨s', q', hlead', hok', hempty, hend⟩ := leads_take hok howed rfl
        exact ⟨s', q', hlead.trans hlead', hok', hempty, hend.imp_right fun h => ⟨h.1, h.2.1⟩⟩
      · exact ⟨_, q, hlead, hok, howed, Or.inr ⟨rfl, rfl⟩⟩
  | take idx =>
      obtain ⟨s', q', hlead, hok, hempty, hend⟩ := leads_take h howed hmain
      exact ⟨s', q', hlead, hok, hempty, hend.imp_right fun h => ⟨h.1, h.2.1⟩⟩
  | call idx events | handle idx events =>
      have hrunning : s.main.running = some (idx, events) := by
        rw [hmain]
        rfl
      obtain ⟨s', q', hlead, hok, hempty, hend⟩ := leads_handler h howed hrunning
      exact ⟨s', q', hlead, hok, hempty, hend.imp_right fun h => ⟨h.1, h.2.1⟩⟩
  | back idx events =>
      have hstep := ok_putBack h hmain
      refine ⟨_, q, (Leads.refl _).step (a := .putBack) trivial ?_, hstep, howed, Or.inr ⟨rfl, rfl⟩⟩
      simp only [kernel, hmain]

/-- **While a message waits**, the main loop gets to a task that fetches one. -/
theorem leads_shorter (h : s.Ok T q) (howed : s.owed = []) (hmain : s.main = .look 0)
    (hq : q ≠ []) : ∃ s' q', Leads T s s' ∧ s'.Ok T q' ∧ s'.owed = [] ∧ q'.length < q.length := by
  -- On the number of ready tasks: a round that fetches nothing leaves fewer.
  generalize hn : (s.ready T).length = n
  induction n using Nat.strong_induction_on generalizing s with
  | _ n ih =>
      obtain ⟨pc, hlead, hok, ⟨j, rfl, hj⟩ | ⟨rfl, hnone⟩⟩ := leads_look h hmain
      · obtain ⟨s', q', hlead', hok', hempty, hshorter | ⟨rfl, hpc, hzero, hevents⟩⟩ :=
          leads_take hok howed rfl
        · exact ⟨s', q', hlead.trans hlead', hok', hempty, hshorter⟩
        · have hlt : (s'.ready T).length < n := by
            rw [← hn]
            exact ready_lt hok.idx_lt hj hzero hevents
          obtain ⟨s'', q'', hlead'', hrest⟩ := ih _ hlt hok' hempty hpc rfl
          exact ⟨s'', q'', (hlead.trans hlead').trans hlead'', hrest⟩
      · -- No task is ready, so nobody is woken.
        obtain ⟨p, hp⟩ := List.exists_mem_of_ne_nil q hq
        exfalso
        rcases h.woken p hp with hset | howed' | ⟨events, hcall⟩
        · rw [Messages.Signalled, hnone _ (Nat.zero_le _) (h.queued.queued p hp).2] at hset
          exact hset BitVec.zero_and
        · rw [howed] at howed'
          cases howed'
        · rw [hmain] at hcall
          cases hcall

/-- The queue is emptied. -/
theorem leads_empty (h : s.Ok T q) (howed : s.owed = []) :
    ∃ s', Leads T s s' ∧ s'.msgs.qHead = 0 := by
  generalize hn : q.length = n
  induction n using Nat.strong_induction_on generalizing s q with
  | _ n ih =>
      by_cases hq : q = []
      · subst hq
        exact ⟨s, Leads.refl s, isList_nil.mp h.queued.list⟩
      · obtain ⟨s₁, q₁, hlead, hok, hempty, hshorter | ⟨rfl, hpc⟩⟩ := leads_round h howed
        · obtain ⟨s', hlead', hend⟩ := ih _ (hn ▸ hshorter) hok hempty rfl
          exact ⟨s', hlead.trans hlead', hend⟩
        · obtain ⟨s₂, q₂, hlead₂, hok₂, hempty₂, hshorter⟩ := leads_shorter hok hempty hpc hq
          obtain ⟨s', hlead', hend⟩ := ih _ (hn ▸ hshorter) hok₂ hempty₂ rfl
          exact ⟨s', (hlead.trans hlead₂).trans hlead', hend⟩

/-- **No message is stuck.**  From every state that the tasks and the interrupts reach, the main
loop gets to an empty queue, if the senders finish what they began and the handlers only receive and
return. -/
theorem queue_can_be_emptied (as : List KernelAction)
    (hex : (kernel T).exec (kernel T).init as = some s) : ∃ bs : List KernelAction,
    (∀ b ∈ bs, b.Drains) ∧ ∃ s', (kernel T).exec s bs = some s' ∧ s'.msgs.qHead = 0 := by
  obtain ⟨t, -, q, hok, -⟩ := osal_run hex
  obtain ⟨s₁, hlead, hok₁, hempty⟩ := leads_signalled hok
  obtain ⟨s₂, hlead₂, hend⟩ := leads_empty hok₁ hempty
  obtain ⟨bs, hbs, hrun⟩ := hlead.trans hlead₂
  exact ⟨bs, hbs, s₂, hrun, hend⟩

theorem queue_can_be_emptied_early : ∃ s : Kernel, s.msgs.qHead = 10 ∧
    ∃ bs : List KernelAction, (∀ b ∈ bs, b.Drains) ∧
      ∃ s', (kernel fiveTasks).exec s bs = some s' ∧ s'.msgs.qHead = 0 := by
  obtain ⟨s, hs, hhead⟩ := Machine.exists_exec (kernel fiveTasks) (kernel fiveTasks).init
    [.allocate 10, .send 2 10, .allocate 20, .send 1 20, .signal 1, .look]
    (fun s => s.msgs.qHead = 10) (by decide)
  exact ⟨s, hhead, queue_can_be_emptied _ hs⟩

end Leading

end CourseDesign.Osal
