import CourseDesign.Terminal.Tasks

/-!
# Mutex discipline of the card terminal

`mutex` guards the card string of `tcp_client_task` and the verdict of `display_task`.  The
discipline is `MutexOk`: an owner is always between its `xSemaphoreTake` and its `xSemaphoreGive`.

* `ownedInCritical_preserved` — over every step but a failing `send`, a task owns the mutex
  *exactly* while it is in its critical section.
* `abandoned_preserved` — after a failing `send` the mutex belongs to a task that has returned,
  for ever.
* `mutexOk_iff_no_failed_send` — so a run keeps the discipline if and only if no `send` fails in
  it, and as long as none has failed `display_task` can get the mutex again.
-/

namespace CourseDesign.Terminal

/-- Between `xSemaphoreTake` and `xSemaphoreGive` of `tcp_client_task`. -/
def TcpPc.critical : TcpPc → Bool
  | .memset | .format | .send _ | .semGive => true
  | _ => false

/-- Between `xSemaphoreTake` and `xSemaphoreGive` of `display_task`. -/
def DisplayPc.critical : DisplayPc → Bool
  | .judge _ | .feedback _ | .semGive => true
  | _ => false

def State.inCritical (s : State) : Task → Bool
  | .display => s.display.critical
  | .tcpClient => s.tcp.critical

/-- An owned mutex is owned by a task that is in its critical section (and so has not returned). -/
def State.MutexOk (s : State) : Prop := ∀ t, s.mutex = some t → s.inCritical t = true

/-- A task owns the mutex exactly while it is in its critical section. -/
def State.OwnedInCritical (s : State) : Prop := ∀ t, s.mutex = some t ↔ s.inCritical t = true

/-- The mutex belongs to `tcp_client_task`, which has returned. -/
def State.Abandoned (s : State) : Prop := s.mutex = some .tcpClient ∧ s.tcp = .returned

def Action.sendFails : Action → Prop
  | .tcpSend err => err < 0
  | _ => False

@[simp] theorem TcpPc.notified_critical (pc : TcpPc) : pc.notified.critical = pc.critical := by
  cases pc <;> rfl

@[simp] theorem DisplayPc.notified_critical (pc : DisplayPc) :
    pc.notified.critical = pc.critical := by
  cases pc <;> rfl

/-! ## What a step does to the mutex -/

/-- The handler touches neither the mutex nor a critical section. -/
theorem stepHandler_mutex {s t : State} {a : Action} (h : s.stepHandler a = some t) :
    t.mutex = s.mutex ∧ ∀ k, t.inCritical k = s.inCritical k := by
  cases a with
  | scan sn =>
      obtain ⟨-, rfl⟩ := Machine.when_eq_some.mp h
      exact ⟨rfl, fun k => by cases k <;> rfl⟩
  | notifyDisplay =>
      obtain ⟨-, rfl⟩ := Machine.when_eq_some.mp h
      exact ⟨rfl, fun k => by cases k <;> simp [State.inCritical]⟩
  | notifyTcp =>
      obtain ⟨-, rfl⟩ := Machine.when_eq_some.mp h
      exact ⟨rfl, fun k => by cases k <;> simp [State.inCritical]⟩
  | _ => simp [State.stepHandler] at h

/-- A step of `tcp_client_task` whose `send` does not fail: it takes a free mutex as it enters its
critical section, frees its own as it leaves, and otherwise keeps both as they are. -/
theorem stepTcp_mutex {s t : State} {a : Action} (h : s.stepTcp a = some t)
    (ha : ¬ a.sendFails) :
    t.display = s.display ∧
      ((s.mutex = none ∧ t.mutex = some .tcpClient ∧ t.tcp.critical = true) ∨
        (s.tcp.critical = true ∧ t.mutex = semGive .tcpClient s.mutex ∧ t.tcp.critical = false) ∨
        (t.mutex = s.mutex ∧ t.tcp.critical = s.tcp.critical)) := by
  cases a with
  | tcpConnect ok =>
      obtain ⟨hpc, rfl⟩ := Machine.when_eq_some.mp h
      refine ⟨rfl, Or.inr (Or.inr ⟨rfl, ?_⟩)⟩
      cases ok <;> simp [TcpPc.critical, hpc]
  | tcpNotifyTake =>
      obtain ⟨hpc, rfl⟩ := Machine.when_eq_some.mp h
      split <;> exact ⟨rfl, Or.inr (Or.inr ⟨rfl, by simp [TcpPc.critical, hpc]⟩)⟩
  | tcpSemTake pass =>
      cases pass with
      | true =>
          obtain ⟨⟨-, hfree⟩, rfl⟩ := Machine.when_eq_some.mp h
          exact ⟨rfl, Or.inl ⟨hfree, rfl, rfl⟩⟩
      | false =>
          obtain ⟨hpc, rfl⟩ := Machine.when_eq_some.mp h
          exact ⟨rfl, Or.inr (Or.inr ⟨rfl, by simp [TcpPc.critical, hpc]⟩)⟩
  | tcpMemset =>
      obtain ⟨hpc, rfl⟩ := Machine.when_eq_some.mp h
      exact ⟨rfl, Or.inr (Or.inr ⟨rfl, by simp [TcpPc.critical, hpc]⟩)⟩
  | tcpFormat =>
      obtain ⟨hpc, rfl⟩ := Machine.when_eq_some.mp h
      exact ⟨rfl, Or.inr (Or.inr ⟨rfl, by simp [TcpPc.critical, hpc]⟩)⟩
  | tcpSend err =>
      obtain ⟨v, hpc, rfl⟩ := stepTcp_send h
      have herr : ¬ err < 0 := ha
      exact ⟨rfl, Or.inr (Or.inr ⟨rfl, by simp [TcpPc.critical, hpc, herr]⟩)⟩
  | tcpSemGive =>
      obtain ⟨hpc, rfl⟩ := Machine.when_eq_some.mp h
      exact ⟨rfl, Or.inr (Or.inl ⟨by simp [TcpPc.critical, hpc], rfl, rfl⟩)⟩
  | tcpDelay =>
      obtain ⟨hpc, rfl⟩ := Machine.when_eq_some.mp h
      exact ⟨rfl, Or.inr (Or.inr ⟨rfl, by simp [TcpPc.critical, hpc]⟩)⟩
  | _ => simp [State.stepTcp] at h

/-- The same for `display_task`, whose every step is of this kind. -/
theorem stepDisplay_mutex {s t : State} {a : Action} (h : s.stepDisplay a = some t) :
    t.tcp = s.tcp ∧
      ((s.mutex = none ∧ t.mutex = some .display ∧ t.display.critical = true) ∨
        (s.display.critical = true ∧ t.mutex = semGive .display s.mutex ∧
          t.display.critical = false) ∨
        (t.mutex = s.mutex ∧ t.display.critical = s.display.critical)) := by
  cases a with
  | displayStart =>
      obtain ⟨hpc, rfl⟩ := Machine.when_eq_some.mp h
      exact ⟨rfl, Or.inr (Or.inr ⟨rfl, by simp [DisplayPc.critical, hpc]⟩)⟩
  | displayNotifyTake =>
      obtain ⟨hpc, rfl⟩ := Machine.when_eq_some.mp h
      split <;> exact ⟨rfl, Or.inr (Or.inr ⟨rfl, by simp [DisplayPc.critical, hpc]⟩)⟩
  | displayFormat =>
      obtain ⟨hpc, rfl⟩ := Machine.when_eq_some.mp h
      exact ⟨rfl, Or.inr (Or.inr ⟨rfl, by simp [DisplayPc.critical, hpc]⟩)⟩
  | displayDraw =>
      obtain ⟨hpc, rfl⟩ := Machine.when_eq_some.mp h
      exact ⟨rfl, Or.inr (Or.inr ⟨rfl, by simp [DisplayPc.critical, hpc]⟩)⟩
  | displaySemTake pass =>
      cases pass with
      | true =>
          obtain ⟨drawn, -, hfree, rfl⟩ := stepDisplay_semTake h
          exact ⟨rfl, Or.inl ⟨hfree, rfl, rfl⟩⟩
      | false =>
          obtain ⟨drawn, hpc, rfl⟩ := stepDisplay_semTimeout h
          exact ⟨rfl, Or.inr (Or.inr ⟨rfl, by simp [DisplayPc.critical, hpc]⟩)⟩
  | displayJudge =>
      obtain ⟨drawn, hpc, rfl⟩ := stepDisplay_judge h
      exact ⟨rfl, Or.inr (Or.inr ⟨rfl, by simp [DisplayPc.critical, hpc]⟩)⟩
  | displayFeedback =>
      obtain ⟨verdict, hpc, rfl⟩ := stepDisplay_feedback h
      exact ⟨rfl, Or.inr (Or.inr ⟨rfl, by simp [DisplayPc.critical, hpc]⟩)⟩
  | displaySemGive =>
      obtain ⟨hpc, rfl⟩ := Machine.when_eq_some.mp h
      exact ⟨rfl, Or.inr (Or.inl ⟨by simp [DisplayPc.critical, hpc], rfl, rfl⟩)⟩
  | displayDelay =>
      obtain ⟨hpc, rfl⟩ := Machine.when_eq_some.mp h
      exact ⟨rfl, Or.inr (Or.inr ⟨rfl, by simp [DisplayPc.critical, hpc]⟩)⟩
  | _ => simp [State.stepDisplay] at h

/-! ## The invariant and the damage -/

/-- The three kinds of step a task's own statements take keep the invariant; `k` is that task and
`o` the other one. -/
theorem ownedInCritical_of_step {s t : State} {k : Task} (hs : s.OwnedInCritical)
    (hother : ∀ o, o ≠ k → t.inCritical o = s.inCritical o)
    (hk : (s.mutex = none ∧ t.mutex = some k ∧ t.inCritical k = true) ∨
      (s.inCritical k = true ∧ t.mutex = semGive k s.mutex ∧ t.inCritical k = false) ∨
      (t.mutex = s.mutex ∧ t.inCritical k = s.inCritical k)) :
    t.OwnedInCritical := by
  intro j
  by_cases hj : j = k
  · subst hj
    rcases hk with ⟨-, hm, hc⟩ | ⟨-, hm, hc⟩ | ⟨hm, hc⟩
    · simp [hm, hc]
    · simp only [hm, hc, semGive, Bool.false_eq_true, iff_false]
      split_ifs with h
      · simp
      · exact h
    · rw [hm, hc]
      exact hs j
  · rw [hother j hj, ← hs j]
    rcases hk with ⟨hfree, hm, -⟩ | ⟨hcrit, hm, -⟩ | ⟨hm, -⟩
    · simp [hm, hfree, Ne.symm hj]
    · have howner : s.mutex = some k := (hs k).mpr hcrit
      simp [hm, howner, semGive, Ne.symm hj]
    · rw [hm]

/-- **Step lemma.**  Every step but a failing `send` keeps ownership and critical sections
together. -/
theorem ownedInCritical_preserved :
    terminal.Preserves (fun _ a => ¬ a.sendFails) State.OwnedInCritical := by
  intro s a t hs ha h
  cases hactor : a.actor with
  | handler =>
      have hstep : s.stepHandler a = some t := by simpa [terminal, hactor] using h
      obtain ⟨hm, hc⟩ := stepHandler_mutex hstep
      intro k
      rw [hm, hc k]
      exact hs k
  | tcpClient =>
      have hstep : s.stepTcp a = some t := by simpa [terminal, hactor] using h
      obtain ⟨hd, hk⟩ := stepTcp_mutex hstep ha
      refine ownedInCritical_of_step (k := .tcpClient) hs (fun o ho => ?_) hk
      cases o with
      | display => simp [State.inCritical, hd]
      | tcpClient => exact absurd rfl ho
  | display =>
      have hstep : s.stepDisplay a = some t := by simpa [terminal, hactor] using h
      obtain ⟨ht, hk⟩ := stepDisplay_mutex hstep
      refine ownedInCritical_of_step (k := .display) hs (fun o ho => ?_) hk
      cases o with
      | display => exact absurd rfl ho
      | tcpClient => simp [State.inCritical, ht]

theorem abandoned_of_sendFails {s t : State} {a : Action} (hs : s.OwnedInCritical)
    (ha : a.sendFails) (h : terminal.step s a = some t) : t.Abandoned := by
  cases a with
  | tcpSend err =>
      obtain ⟨v, hpc, rfl⟩ := stepTcp_send h
      have hneg : err < 0 := ha
      have howner : s.mutex = some .tcpClient :=
        (hs .tcpClient).mpr (by simp [State.inCritical, TcpPc.critical, hpc])
      exact ⟨howner, by simp [hneg]⟩
  | _ => exact absurd ha (by simp [Action.sendFails])

theorem stepTcp_returned {s : State} (hs : s.tcp = .returned) (a : Action) :
    s.stepTcp a = none := by
  cases a with
  | tcpSemTake pass => cases pass <;> simp [State.stepTcp, Machine.when, hs]
  | _ => simp [State.stepTcp, Machine.when, hs]

/-- **The damage is permanent**: nobody else can free the mutex, and its owner never runs again. -/
theorem abandoned_preserved : terminal.Preserves (fun _ _ => True) State.Abandoned := by
  rintro s a t ⟨howner, hret⟩ - h
  cases hactor : a.actor with
  | handler =>
      have hstep : s.stepHandler a = some t := by simpa [terminal, hactor] using h
      refine ⟨(stepHandler_mutex hstep).1.trans howner, ?_⟩
      cases a with
      | scan sn =>
          obtain ⟨-, rfl⟩ := Machine.when_eq_some.mp hstep
          exact hret
      | notifyDisplay =>
          obtain ⟨-, rfl⟩ := Machine.when_eq_some.mp hstep
          exact hret
      | notifyTcp =>
          obtain ⟨-, rfl⟩ := Machine.when_eq_some.mp hstep
          simp [hret, TcpPc.notified]
      | _ => simp [Action.actor] at hactor
  | tcpClient =>
      have hstep : s.stepTcp a = some t := by simpa [terminal, hactor] using h
      rw [stepTcp_returned hret] at hstep
      cases hstep
  | display =>
      have hstep : s.stepDisplay a = some t := by simpa [terminal, hactor] using h
      obtain ⟨ht, hk⟩ := stepDisplay_mutex hstep
      refine ⟨?_, ht.trans hret⟩
      rcases hk with ⟨hfree, -, -⟩ | ⟨-, hm, -⟩ | ⟨hm, -⟩
      · simp [howner] at hfree
      · simp [hm, semGive, howner]
      · rw [hm, howner]

theorem State.Abandoned.not_mutexOk {s : State} (h : s.Abandoned) : ¬ s.MutexOk := by
  intro hok
  have hcrit := hok _ h.1
  simp [State.inCritical, TcpPc.critical, h.2] at hcrit

theorem ownedInCritical_init : terminal.init.OwnedInCritical := by
  intro k
  cases k <;> simp [terminal, State.inCritical, TcpPc.critical, DisplayPc.critical]

/-! ## Getting the mutex again -/

/-- The statements `tcp_client_task` still has to execute to leave its critical section. -/
def TcpPc.toGive : TcpPc → List Action
  | .memset => [.tcpMemset, .tcpFormat, .tcpSend 0, .tcpSemGive]
  | .format => [.tcpFormat, .tcpSend 0, .tcpSemGive]
  | .send _ => [.tcpSend 0, .tcpSemGive]
  | .semGive => [.tcpSemGive]
  | _ => []

/-- From its critical section `tcp_client_task` reaches its `xSemaphoreGive` without the help of
anyone, and leaves `display_task` where it was. -/
theorem tcp_gives {s : State} (hc : s.tcp.critical = true) (hm : s.mutex = some .tcpClient) :
    ∃ t, terminal.exec s s.tcp.toGive = some t ∧ t.mutex = none ∧ t.display = s.display := by
  cases hpc : s.tcp with
  | memset | format | send v | semGive =>
      simp [TcpPc.toGive, Machine.exec, terminal, Action.actor, State.stepTcp, Machine.when, hpc,
        semGive, hm]
  | connecting | notifyTake | blocked | semTake | delay | returned =>
      simp [TcpPc.critical, hpc] at hc

/-- **`display_task` gets the mutex again**, whoever holds it now. -/
theorem display_reacquires {s : State} {drawn : List UInt8} (hs : s.OwnedInCritical)
    (hd : s.display = .semTake drawn) :
    ∃ bs t, (∀ b ∈ bs, ¬ b.sendFails) ∧ terminal.exec s bs = some t ∧
      t.mutex = some .display := by
  have hfinish : ∀ {u : State}, u.mutex = none → u.display = .semTake drawn →
      ∃ t, terminal.exec u [.displaySemTake true] = some t ∧ t.mutex = some .display := by
    intro u hu hud
    simp [Machine.exec, terminal, Action.actor, State.stepDisplay, Machine.when, hu, hud]
  cases hm : s.mutex with
  | none =>
      obtain ⟨t, ht, htm⟩ := hfinish hm hd
      exact ⟨[.displaySemTake true], t, by simp [Action.sendFails], ht, htm⟩
  | some k =>
      have hcrit := (hs k).mp hm
      cases k with
      | display => simp [State.inCritical, DisplayPc.critical, hd] at hcrit
      | tcpClient =>
          obtain ⟨u, hu, hum, hud⟩ := tcp_gives hcrit hm
          obtain ⟨t, ht, htm⟩ := hfinish hum (hud.trans hd)
          refine ⟨s.tcp.toGive ++ [.displaySemTake true], t, ?_,
            (Machine.exec_append_eq_some _).mpr ⟨u, hu, ht⟩, htm⟩
          cases s.tcp <;> simp [TcpPc.toGive, Action.sendFails]

/-! ## The discipline -/

/-- **Mutex discipline.**  A state that a run reaches is disciplined if and only if no `send` has
failed in the run; and as long as none has, a `display_task` that wants the mutex can get it. -/
theorem mutexOk_iff_no_failed_send {as : List Action} {s : State}
    (h : terminal.exec terminal.init as = some s) :
    (s.MutexOk ↔ ∀ a ∈ as, ¬ a.sendFails) ∧
      ((∀ a ∈ as, ¬ a.sendFails) → ∀ drawn, s.display = .semTake drawn →
        ∃ bs t, (∀ b ∈ bs, ¬ b.sendFails) ∧ terminal.exec s bs = some t ∧
          t.mutex = some .display) := by
  have hrun := Machine.exec_dichotomy (E := fun _ _ => True) (G := fun _ a => ¬ a.sendFails)
    (P := State.OwnedInCritical) (Q := State.Abandoned)
    (fun s a t hs ha => ownedInCritical_preserved hs ha.2)
    (fun s a t hs _ ha => abandoned_of_sendFails hs (not_not.mp ha)) abandoned_preserved
    ownedInCritical_init (Machine.along_of_forall (H := fun _ => True) (by simp) _) h
  rcases hrun with ⟨hal, howned⟩ | ⟨hal, hab⟩
  · have hno := Machine.forall_of_along h hal
    refine ⟨⟨fun _ => hno, fun _ k hk => (howned k).mp hk⟩, fun _ drawn hd => ?_⟩
    exact display_reacquires howned hd
  · have hsome : ¬ ∀ a ∈ as, ¬ a.sendFails := fun hno => hal (Machine.along_of_forall hno _)
    exact ⟨⟨fun hok => absurd hok (State.Abandoned.not_mutexOk hab), fun hno => absurd hno hsome⟩,
      fun hno => absurd hno hsome⟩

/-- One scan, up to the `send` of its ID, with `display_task` waiting for the mutex. -/
def oneScan : List Action :=
  [.displayStart, .displayNotifyTake, .tcpConnect true, .tcpNotifyTake, .scan 7, .notifyDisplay,
    .notifyTcp, .displayFormat, .displayDraw, .tcpSemTake true, .tcpMemset, .tcpFormat]

/-- If that `send` reports an error, the mutex stays with a task that has returned. -/
theorem failed_send_keeps_mutex :
    ∃ s, terminal.exec terminal.init (oneScan ++ [.tcpSend (-1)]) = some s ∧
      s.mutex = some .tcpClient ∧ s.tcp = .returned ∧ ¬ s.MutexOk := by
  obtain ⟨s, hs, hp⟩ := terminal.exists_exec terminal.init (oneScan ++ [.tcpSend (-1)])
    (fun s => s.mutex = some .tcpClient ∧ s.tcp = .returned) (by decide +kernel)
  exact ⟨s, hs, hp.1, hp.2, State.Abandoned.not_mutexOk hp⟩

/-- If it succeeds, the discipline holds and `display_task` gets the mutex. -/
theorem good_send_returns_mutex :
    ∃ s, terminal.exec terminal.init (oneScan ++ [.tcpSend 1]) = some s ∧
      s.MutexOk ∧ ∃ bs t, terminal.exec s bs = some t ∧ t.mutex = some .display := by
  obtain ⟨s, hs, hp⟩ := terminal.exists_exec terminal.init (oneScan ++ [.tcpSend 1])
    (fun s => s.display = .semTake [0x37]) (by decide +kernel)
  have hno : ∀ a ∈ oneScan ++ [.tcpSend 1], ¬ a.sendFails := by
    simp [oneScan, Action.sendFails]
  obtain ⟨hok, hagain⟩ := mutexOk_iff_no_failed_send hs
  obtain ⟨bs, t, -, ht, hm⟩ := hagain hno _ hp
  exact ⟨s, hs, hok.mpr hno, bs, t, ht, hm⟩

end CourseDesign.Terminal
