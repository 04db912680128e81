import CourseDesign.Osal.Ticking

/-!
# When timers set their events

What holds of the timers in every run, whatever is started and stopped between the critical sections
of `osalTimerUpdate`.

* `timers_refine_alarms` — the timers are the alarms of a clock: each rings at its deadline or
  later, and none is missed.
* `timer_list_safe` — the walk over the list touches no record that is freed, and it ends.
* `timer_rings_once`, `reload_timer_rings`, `stopped_timer_silent` — how often an event is set.
* `osalGetTimeoutEx_alarm` — what `osal_get_timeoutEx` returns is the time to the alarm.
-/

namespace CourseDesign.Osal

open LinkedList AlarmClock

/-! ## The clock -/

section Clock

variable {s t : TimerSystem} {a : State TimerKey} {as bs : List TimerAction}

theorem TimerSystem.Ticks.idle (hR : s.Ticks a) (hu : s.update = .idle) :
    s.events = a.rung ∧ a.settled = a.now := by
  obtain ⟨seen, todo, -, g⟩ := hR
  have hsettled := g.settled
  rw [hu] at hsettled
  refine ⟨?_, ?_⟩
  · rw [g.rung, TimerSystem.pending, hu, List.append_nil]
  · rw [g.now]
    exact hsettled

theorem alarms_ok (hex : clock.exec clock.init (timerSystem.trace TimerSystem.ops
    timerSystem.init as) = some a) : AlarmClock.Ok a :=
  Machine.exec_of_preserves ok_preserves ⟨Nat.le_refl _, fun _ _ h => by cases h⟩
    (Machine.along_of_forall (fun _ _ => trivial) _) hex

/-- **The timers are alarms.**  Whatever is started and stopped while the records are counted down,
what sets the events is a clock whose alarms ring at their deadline or later; and when
`osalTimerUpdate` is through, every event that is due has been set.  A timer that is started while
the walk is before its record is counted down by that walk too, so its deadline is early by the time
that the walk counts. -/
theorem timers_refine_alarms (as : List TimerAction)
    (hex : timerSystem.exec timerSystem.init as = some s) :
    ∃ a, clock.exec clock.init (timerSystem.trace TimerSystem.ops timerSystem.init as) = some a ∧
      s.Ticks a ∧ (s.update = .idle → s.events = a.rung ∧ a.Settled) := by
  obtain ⟨a, ha, hR⟩ := timers_exec ticks_init hex
  refine ⟨a, ha, hR, fun hu => ?_⟩
  obtain ⟨hevents, hsettled⟩ := hR.idle hu
  refine ⟨hevents, fun k alarm hk => ?_⟩
  rw [← hsettled]
  exact (alarms_ok ha).lt k alarm hk

/-- Two timers, and a third that an interrupt starts while they are counted down; the first is
stopped when it has been seen. -/
def threeTimers : List TimerAction :=
  [.start false 1 1 5 100, .start true 2 2 3 200, .update 4, .enter, .visit, .start false 3 4 2 300,
    .visit, .visit, .stop 1 1, .raise, .free, .visit]

theorem timers_refine_alarms_threetimers : ∃ s : TimerSystem, s.calls = [(2, 2), (3, 4)] ∧ ∃ a,
    clock.exec clock.init (timerSystem.trace TimerSystem.ops timerSystem.init threeTimers) =
        some a ∧
      s.Ticks a ∧ (s.update = .idle → s.events = a.rung ∧ a.Settled) := by
  obtain ⟨s, hs, hcalls⟩ := Machine.exists_exec timerSystem timerSystem.init threeTimers
    (fun s => s.calls = [(2, 2), (3, 4)]) (by decide)
  exact ⟨s, hcalls, timers_refine_alarms threeTimers hs⟩

end Clock

/-! ## The list -/

/-- A step of `osalTimerUpdate` itself. -/
def TimerAction.OfUpdate : TimerAction → Prop
  | .enter => True
  | .visit => True
  | .raise => True
  | .free => True
  | _ => False

section Walk

variable {s t : TimerSystem} {a : State TimerKey} {seen todo : List ℕ} {u srch prev : ℕ}

/-- `osalTimerUpdate` gets from one state to another, alone and in so many steps. -/
def Walks (n : ℕ) (s t : TimerSystem) : Prop :=
  ∃ cs : List TimerAction, (∀ c ∈ cs, c.OfUpdate) ∧ cs.length ≤ n ∧ timerSystem.exec s cs = some t

/-- It gets through in so many steps. -/
def Ends (n : ℕ) (s : TimerSystem) : Prop := ∃ t, Walks n s t ∧ t.update = .idle

theorem ends_idle (n : ℕ) (hu : s.update = .idle) : Ends n s :=
  ⟨s, ⟨[], by simp, Nat.zero_le _, rfl⟩, hu⟩

theorem Ends.mono {m n : ℕ} (h : Ends m s) (hle : m ≤ n) : Ends n s := by
  obtain ⟨t, ⟨cs, hcs, hlen, hex⟩, hidle⟩ := h
  exact ⟨t, ⟨cs, hcs, hlen.trans hle, hex⟩, hidle⟩

theorem Ends.step {c : TimerAction} {n : ℕ} (hc : c.OfUpdate)
    (hstep : timerSystem.step s c = some t) (h : Ends n t) : Ends (n + 1) s := by
  obtain ⟨r, ⟨cs, hcs, hlen, hex⟩, hidle⟩ := h
  refine ⟨r, ⟨c :: cs, fun b hb => ?_, Nat.succ_le_succ hlen,
    timerSystem.exec_cons_eq_some.mpr ⟨t, hstep, hex⟩⟩, hidle⟩
  rcases List.mem_cons.mp hb with rfl | hb
  · exact hc
  · exact hcs b hb

theorem visit_update (s : TimerSystem) (u srch prev : ℕ) :
    ∃ srch' prev' free, (s.visit u srch prev).update = .walking u srch' prev' free := by
  simp only [TimerSystem.visit]
  split
  · exact ⟨_, _, _, rfl⟩
  · exact ⟨_, _, _, rfl⟩

/-- The record that was taken out is done with in two steps. -/
theorem ends_of_null {n : ℕ} {free : FreeTimer}
    (hnull : ∀ (s : TimerSystem) (srch prev : ℕ), s.Ok seen todo → s.Agrees seen todo a →
      s.update = .walking u srch prev .null → Ends n s)
    (h : s.Ok seen todo) (g : s.Agrees seen todo a) (hu : s.update = .walking u srch prev free) :
    Ends (n + 2) s := by
  have hfree : ∀ (s : TimerSystem) (p : ℕ), s.Ok seen todo → s.Agrees seen todo a →
      s.update = .walking u srch prev (.free p) → Ends (n + 1) s := by
    intro s p h g hu
    obtain ⟨hok, hagrees⟩ := free_step h g hu
    refine Ends.step (c := .free) trivial ?_ (hnull _ srch prev hok hagrees rfl)
    simp only [timerSystem, hu]
  cases free with
  | null => exact (hnull s srch prev h g hu).mono (by omega)
  | raise p =>
      obtain ⟨hok, hagrees⟩ := raise_step h g hu
      refine Ends.step (c := .raise) trivial ?_ (hfree _ p hok hagrees rfl)
      simp only [timerSystem, hu]
  | free p => exact (hfree s p h g hu).mono (by omega)

/-- The walk ends, by induction on the records that are still to do. -/
theorem walk_ends (h : s.Ok seen todo) (g : s.Agrees seen todo a)
    (hu : s.update = .walking u srch prev .null) : Ends (3 * todo.length + 1) s := by
  induction todo generalizing s seen a srch prev with
  | nil =>
      have hpc := h.pc
      rw [hu] at hpc
      obtain rfl : srch = 0 := hpc.2.1
      refine Ends.step (c := .visit) (t := { s with update := .idle }) trivial ?_ (ends_idle _ rfl)
      simp [timerSystem, hu]
  | cons x rest ih =>
      have hpc := h.pc
      rw [hu] at hpc
      obtain rfl : srch = x := hpc.2.1
      have hne : srch ≠ 0 := h.list.ne_zero (by simp)
      obtain ⟨seen', rest', a', heq, hok, -, hagrees⟩ := visit_step h g hu hne
      obtain rfl : rest = rest' := by simpa using heq
      obtain ⟨srch', prev', free, hu'⟩ := visit_update s u srch prev
      have hends := ends_of_null (fun s srch prev h g hu => ih h g hu) hok hagrees hu'
      rw [List.length_cons]
      refine (Ends.step (c := .visit) trivial ?_ hends).mono (by omega)
      simp [timerSystem, hu, hne]

/-- `osalTimerUpdate` gets through from wherever it is. -/
theorem update_ends (h : s.Ok seen todo) (g : s.Agrees seen todo a) :
    Ends (3 * todo.length + 3) s := by
  cases hu : s.update with
  | idle => exact ends_idle _ hu
  | advanced u =>
      by_cases hhead : s.timers.timerHead = 0
      · refine (Ends.step (c := .enter) (t := { s with update := .idle }) trivial ?_
          (ends_idle 0 rfl)).mono (by omega)
        simp [timerSystem, hu, hhead]
      · obtain ⟨hok, hagrees⟩ := enter_step h g hu hhead
        refine (Ends.step (c := .enter) trivial ?_ (walk_ends hok hagrees rfl)).mono (by omega)
        simp [timerSystem, hu, hhead]
  | walking u srch prev free =>
      exact ends_of_null (fun s srch prev h g hu => walk_ends h g hu) h g hu

/-- **The walk is safe.**  Whatever is started and stopped in between, the list links allocated
records only, one for each timer; `osalTimerUpdate` stands at records of it, and frees one that is
out of it; and it gets through in a number of steps that the list bounds. -/
theorem timer_list_safe (as : List TimerAction)
    (hex : timerSystem.exec timerSystem.init as = some s) : ∃ q,
    IsList s.timers.next s.timers.timerHead q ∧ (∀ p ∈ q, s.live p = true) ∧
      (∀ p ∈ q, ∀ p' ∈ q, (s.timers.timer p).key = (s.timers.timer p').key →
        (s.timers.timer p).eventFlag ≠ 0 → p = p') ∧
      (∀ u srch prev free, s.update = .walking u srch prev free →
        (srch = 0 ∨ srch ∈ q) ∧ (srch ≠ 0 → prev = 0 ∨ prev ∈ q)) ∧
      (∀ p, s.update.held = some p → s.live p = true ∧ p ∉ q) ∧ Ends (3 * q.length + 3) s := by
  obtain ⟨a, -, seen, todo, h, g⟩ := timers_exec ticks_init hex
  refine ⟨seen ++ todo, h.list, h.live, h.one, fun u srch prev free hu => ?_, h.held, ?_⟩
  · have hpc := h.pc
    rw [hu] at hpc
    obtain ⟨-, hsrch, hprev⟩ := hpc
    cases todo with
    | nil => exact ⟨Or.inl hsrch, fun hne => absurd hsrch hne⟩
    | cons x rest =>
        refine ⟨Or.inr ?_, fun _ => ?_⟩
        · rw [hsrch]
          simp
        · rw [hprev (by simp)]
          rcases List.eq_nil_or_concat seen with rfl | ⟨front, last, rfl⟩
          · exact Or.inl rfl
          · rw [List.concat_eq_append]
            exact Or.inr (by simp)
  · refine (update_ends h g).mono ?_
    rw [List.length_append]
    omega

theorem timer_list_safe_threetimers : ∃ s : TimerSystem, s.timers.timerHead = 100 ∧ ∃ q,
    IsList s.timers.next s.timers.timerHead q ∧ (∀ p ∈ q, s.live p = true) ∧
      (∀ p ∈ q, ∀ p' ∈ q, (s.timers.timer p).key = (s.timers.timer p').key →
        (s.timers.timer p).eventFlag ≠ 0 → p = p') ∧
      (∀ u srch prev free, s.update = .walking u srch prev free →
        (srch = 0 ∨ srch ∈ q) ∧ (srch ≠ 0 → prev = 0 ∨ prev ∈ q)) ∧
      (∀ p, s.update.held = some p → s.live p = true ∧ p ∉ q) ∧ Ends (3 * q.length + 3) s := by
  obtain ⟨s, hs, hhead⟩ := Machine.exists_exec timerSystem timerSystem.init threeTimers
    (fun s => s.timers.timerHead = 100) (by decide)
  exact ⟨s, hhead, timer_list_safe threeTimers hs⟩

end Walk

/-! ## The events -/

/-- The timer of `k` is started. -/
def TimerAction.Starts (k : TimerKey) : TimerAction → Prop
  | .start _ taskId eventId _ _ => (taskId, eventId) = k
  | _ => False

/-- The timer of `k` is started or stopped. -/
def TimerAction.Sets (k : TimerKey) : TimerAction → Prop
  | .start _ taskId eventId _ _ => (taskId, eventId) = k
  | .stop taskId eventId => (taskId, eventId) = k
  | _ => False

/-- `osalTimerUpdate` is called often enough: the time counted down at once is at most `n`. -/
def TimerAction.StrideLe (n : ℕ) : TimerAction → Prop
  | .update updateTime => updateTime ≤ n
  | _ => True

/-- The time at which the timer of a record is due. -/
def TimerSystem.due (s : TimerSystem) (p : ℕ) : ℕ :=
  s.uptime + max (s.timers.timer p).timeout 1 - if s.ahead p then s.update.charge else 0

section Events

variable {s t : TimerSystem} {a : State TimerKey} {as bs : List TimerAction}
  {taskId timeout p n : ℕ} {eventId : BitVec 16} {k : TimerKey}

/-- What the labels of a step tell of it. -/
theorem ops_cases {s : TimerSystem} {act : TimerAction} {op : Op TimerKey} (hop : op ∈ s.ops act) :
    (∃ k delay counted reload, op = .start k delay counted reload ∧ act.Starts k) ∨
      (∃ k, op = .cancel k ∧ act.Sets k) ∨ (∃ u, op = .pass u ∧ act = .update u) ∨
      (∃ k, op = .ring k) ∨ op = .settle := by
  cases act with
  | start reloads taskId eventId timeout newTimer =>
      simp only [TimerSystem.ops] at hop
      split at hop
      next =>
          split at hop
          · cases hop
          · exact Or.inl ⟨_, _, _, _, List.mem_singleton.mp hop, rfl⟩
      next => cases hop
  | stop taskId eventId =>
      rw [TimerSystem.ops] at hop
      split at hop
      · cases hop
      · exact Or.inr (Or.inl ⟨_, List.mem_singleton.mp hop, rfl⟩)
  | update u => exact Or.inr (Or.inr (Or.inl ⟨u, List.mem_singleton.mp hop, rfl⟩))
  | enter =>
      rw [TimerSystem.ops] at hop
      split at hop
      · exact Or.inr (Or.inr (Or.inr (Or.inr (List.mem_singleton.mp hop))))
      · cases hop
  | visit =>
      rw [TimerSystem.ops] at hop
      split at hop
      next =>
          split at hop
          · exact Or.inr (Or.inr (Or.inr (Or.inr (List.mem_singleton.mp hop))))
          · dsimp only at hop
            split at hop
            · exact Or.inr (Or.inr (Or.inr (Or.inl ⟨_, List.mem_singleton.mp hop⟩)))
            · cases hop
      next => cases hop
  | raise => cases hop
  | free => cases hop

theorem ops_starts {s : TimerSystem} {act : TimerAction} {op : Op TimerKey} (hop : op ∈ s.ops act)
    (hk : op.Starts k) : act.Starts k := by
  rcases ops_cases hop with ⟨j, delay, counted, reload, rfl, hact⟩ | ⟨j, rfl, -⟩ | ⟨u, rfl, -⟩ |
    ⟨j, rfl⟩ | rfl
  · obtain rfl : j = k := hk
    exact hact
  · cases hk
  · cases hk
  · cases hk
  · cases hk

theorem TimerAction.Starts.sets {act : TimerAction} (h : act.Starts k) : act.Sets k := by
  cases act with
  | start reloads taskId eventId timeout newTimer => exact h
  | _ => cases h

theorem ops_sets {s : TimerSystem} {act : TimerAction} {op : Op TimerKey} (hop : op ∈ s.ops act)
    (hk : op.Sets k) : act.Sets k := by
  rcases ops_cases hop with ⟨j, delay, counted, reload, rfl, hact⟩ | ⟨j, rfl, hact⟩ | ⟨u, rfl, -⟩ |
    ⟨j, rfl⟩ | rfl
  · obtain rfl : j = k := hk
    exact hact.sets
  · obtain rfl : j = k := hk
    exact hact
  · cases hk
  · cases hk
  · cases hk

theorem ops_strideLe {s : TimerSystem} {act : TimerAction} {op : Op TimerKey} (hop : op ∈ s.ops act)
    (hact : act.StrideLe n) : op.StrideLe n := by
  rcases ops_cases hop with ⟨j, delay, counted, reload, rfl, -⟩ | ⟨j, rfl, -⟩ | ⟨u, rfl, rfl⟩ |
    ⟨j, rfl⟩ | rfl
  · trivial
  · trivial
  · exact hact
  · trivial
  · trivial

/-- The events that are set or will be set by the walk without any further ring. -/
def TimerSystem.settings (s : TimerSystem) (k : TimerKey) : ℕ := times k (s.events ++ s.pending)

theorem TimerSystem.Ticks.settings (hR : s.Ticks a) : s.settings k = times k a.rung := by
  obtain ⟨seen, todo, -, g⟩ := hR
  rw [TimerSystem.settings, g.rung]

/-- The alarm of a timer that has a record. -/
theorem TimerSystem.Ticks.alarm (hR : s.Ticks a)
    (hfind : osalFindTimer taskId eventId s.timers = some p) (hp : p ≠ 0) (hevent : eventId ≠ 0) :
    a.alarms (taskId, eventId) = some ⟨s.due p, (s.timers.timer p).reloadTimeout⟩ := by
  obtain ⟨seen, todo, h, g⟩ := hR
  rw [osalFindTimer_eq h.list h.length_le, Option.some.injEq] at hfind
  cases hrec : s.timers.record (seen ++ todo) (taskId, eventId) with
  | none =>
      rw [hrec] at hfind
      exact absurd hfind.symm hp
  | some x =>
      rw [hrec] at hfind
      obtain rfl : x = p := hfind
      obtain ⟨hx, hk⟩ := record_some hrec
      have hflag : (s.timers.timer x).eventFlag ≠ 0 := by
        have hflag : (s.timers.timer x).eventFlag = eventId := congrArg Prod.snd hk
        rwa [hflag]
      have halarm := g.shown.alarm x hx hflag
      have hahead : (if s.ahead x then s.update.charge else 0) =
          if x ∈ todo then s.update.charge else 0 := if_congr (h.ahead_iff hx) rfl rfl
      rw [hk] at halarm
      rw [halarm, TimerSystem.due, TimerSystem.alarm, hahead]

/-- `osal_get_timeoutEx` tells how much time is left. -/
theorem osalGetTimeoutEx_alarm (hR : s.Ticks a) (hidle : s.update = .idle) (hevent : eventId ≠ 0)
    (hget : osalGetTimeoutEx taskId eventId s.timers = some n) (hn : n ≠ 0) :
    ∃ reload, a.alarms (taskId, eventId) = some ⟨s.uptime + n, reload⟩ := by
  obtain ⟨p, hfind, htimeout⟩ := Option.map_eq_some_iff.mp hget
  by_cases hp : p = 0
  · rw [if_neg (not_not.mpr hp)] at htimeout
    exact absurd htimeout.symm hn
  · rw [if_pos hp] at htimeout
    have hdue : s.due p = s.uptime + n := by
      rw [TimerSystem.due, TimerSystem.ahead, hidle, htimeout]
      simp only [Bool.false_eq_true, if_false]
      omega
    exact ⟨_, by rw [hR.alarm hfind hp hevent, hdue]⟩

/-- The record in which a timer has just been started. -/
theorem start_timer {reloads : Bool} {newTimer : ℕ} (hR : s.Ticks a)
    (hstep : timerSystem.step s (.start reloads taskId eventId timeout newTimer) = some t)
    (hfind : osalFindTimer taskId eventId t.timers = some p) (hp : p ≠ 0) (hevent : eventId ≠ 0) :
    (t.timers.timer p).timeout = timeout ∧
      (reloads = true → (t.timers.timer p).reloadTimeout = timeout) := by
  obtain ⟨seen, todo, h, g⟩ := hR
  dsimp only [timerSystem] at hstep
  split at hstep
  next hnew =>
      obtain ⟨r, seen', todo', a', hstart, hok, -, -, hshows⟩ :=
        start_step h g reloads taskId eventId timeout hnew
      rw [hstart, Option.map_some, Option.some.injEq] at hstep
      subst hstep
      rcases hshows with ⟨hr, reload, htimer, hreload⟩ | ⟨rfl, hnone⟩
      · have hkey : ((s.started newTimer r).timers.timer r.2).key = (taskId, eventId) := by
          rw [TimerSystem.started]
          dsimp only
          rw [htimer]
          rfl
        rw [osalFindTimer_eq hok.list hok.length_le, Option.some.injEq] at hfind
        cases hrec : (s.started newTimer r).timers.record (seen' ++ todo') (taskId, eventId) with
        | none => exact absurd hkey (record_none hrec hr)
        | some x =>
            rw [hrec] at hfind
            obtain rfl : x = p := hfind
            obtain ⟨hx, hk⟩ := record_some hrec
            have hflag : ((s.started newTimer r).timers.timer x).eventFlag ≠ 0 := by
              have hsame : ((s.started newTimer r).timers.timer x).eventFlag = eventId :=
                congrArg Prod.snd hk
              rwa [hsame]
            obtain rfl := hok.one x hx r.2 hr (hk.trans hkey.symm) hflag
            have hsame : (s.started newTimer r).timers.timer r.2 = r.1.timer r.2 := rfl
            rw [hsame, htimer]
            exact ⟨rfl, hreload⟩
      · have hsame : (s.started newTimer (s.timers, 0)).timers = s.timers := rfl
        rw [hsame, osalFindTimer_eq h.list h.length_le, hnone, Option.some.injEq] at hfind
        exact absurd hfind.symm hp
  next => cases hstep

/-- **An event is set once, and on time.**  A timer that is started, and then neither started anew
nor stopped, sets its event once: in the call of `osalTimerUpdate` with which the time since the
start reaches its timeout.  A start that comes in the middle of such a call may be charged with the
time of that call. -/
theorem timer_rings_once {newTimer : ℕ} (hs : timerSystem.exec timerSystem.init
      (as ++ [.start false taskId eventId timeout newTimer]) = some s)
    (hfind : osalFindTimer taskId eventId s.timers = some p) (hp : p ≠ 0) (hevent : eventId ≠ 0)
    (hone : (s.timers.timer p).reloadTimeout = 0) (ht : timerSystem.exec s bs = some t)
    (hquiet : ∀ b ∈ bs, ¬ b.Sets (taskId, eventId)) (hidle : t.update = .idle) :
    times (taskId, eventId) t.events = s.settings (taskId, eventId) +
      if s.uptime + max timeout 1 - (if s.ahead p then s.update.charge else 0) ≤ t.uptime then 1
      else 0 := by
  obtain ⟨r, hr, hstep⟩ := timerSystem.exec_concat_eq_some.mp hs
  obtain ⟨b, -, hRr⟩ := timers_exec ticks_init hr
  obtain ⟨htimeout, -⟩ := start_timer hRr hstep hfind hp hevent
  obtain ⟨a, ha, hR⟩ := timers_exec ticks_init hs
  obtain ⟨c, hc, hRt⟩ := timers_exec hR ht
  obtain ⟨hevents, hsettled⟩ := hRt.idle hidle
  have hnow : c.now = t.uptime := by
    obtain ⟨seen, todo, -, g⟩ := hRt
    exact g.now
  have hops : ∀ op ∈ timerSystem.trace TimerSystem.ops s bs, ¬ op.Sets (taskId, eventId) :=
    Machine.forall_mem_trace fun act hact _ op hop hk => hquiet act hact (ops_sets hop hk)
  have hcount := rings_once hops (alarms_ok ha) (hR.alarm hfind hp hevent) hone hc hsettled
  rw [hevents, hcount, hR.settings, hnow, TimerSystem.due, htimeout]

theorem timer_rings_once_charged : ∃ s t : TimerSystem, t.uptime = 4 ∧
    times (3, 4) t.events = s.settings (3, 4) +
      if s.uptime + max 2 1 - (if s.ahead 300 then s.update.charge else 0) ≤ t.uptime then 1
      else 0 := by
  obtain ⟨s, t, hs, ⟨hfind, hone⟩, ht, hidle, huptime⟩ := timerSystem.exists_exec_exec
    timerSystem.init ([.start false 1 1 5 100, .update 4, .enter] ++ [.start false 3 4 2 300])
    [.visit, .visit, .raise, .free, .visit]
    (fun s => osalFindTimer 3 4 s.timers = some 300 ∧ (s.timers.timer 300).reloadTimeout = 0)
    (fun t => t.update = .idle ∧ t.uptime = 4) (by decide)
  refine ⟨s, t, huptime, ?_⟩
  refine timer_rings_once hs hfind (by decide) (by decide) hone ht ?_ hidle
  intro b hb hsets
  simp only [List.mem_cons, List.not_mem_nil, or_false] at hb
  rcases hb with rfl | rfl | rfl | rfl | rfl <;> exact hsets

/-- **A reloaded timer sets its event again and again.**  If `osalTimerUpdate` counts down at most
`slack + 1` milliseconds at once, the number of settings and the time since the start fix each
other: no two of them are closer than the timeout, and each is late by `slack` at most. -/
theorem reload_timer_rings {newTimer slack : ℕ} (hs : timerSystem.exec timerSystem.init
      (as ++ [.start true taskId eventId timeout newTimer]) = some s)
    (hfind : osalFindTimer taskId eventId s.timers = some p) (hp : p ≠ 0) (hevent : eventId ≠ 0)
    (htimeout : 0 < timeout) (ht : timerSystem.exec s bs = some t)
    (hquiet : ∀ b ∈ bs, ¬ b.Sets (taskId, eventId))
    (hstride : ∀ b ∈ as ++ bs, b.StrideLe (slack + 1)) (hidle : t.update = .idle) : ∃ m,
      times (taskId, eventId) t.events = s.settings (taskId, eventId) + m ∧
      (0 < m → s.uptime + timeout - (if s.ahead p then s.update.charge else 0) + m * timeout ≤
        t.uptime + timeout) ∧
      t.uptime < s.uptime + timeout - (if s.ahead p then s.update.charge else 0) +
        m * (timeout + slack) := by
  obtain ⟨r, hr, hstep⟩ := timerSystem.exec_concat_eq_some.mp hs
  obtain ⟨b, -, hRr⟩ := timers_exec ticks_init hr
  obtain ⟨htime, hreload⟩ := start_timer hRr hstep hfind hp hevent
  obtain ⟨a, ha, hR⟩ := timers_exec ticks_init hs
  obtain ⟨c, hc, hRt⟩ := timers_exec hR ht
  obtain ⟨hevents, hsettled⟩ := hRt.idle hidle
  have hnow : c.now = t.uptime := by
    obtain ⟨seen, todo, -, g⟩ := hRt
    exact g.now
  have hops : ∀ op ∈ timerSystem.trace TimerSystem.ops s bs,
      ¬ op.Sets (taskId, eventId) ∧ op.StrideLe (slack + 1) :=
    Machine.forall_mem_trace fun act hact _ op hop => ⟨fun hk => hquiet act hact (ops_sets hop hk),
      ops_strideLe hop (hstride act (List.mem_append_right _ hact))⟩
  have hwithin : Within (slack + 1) a := by
    have hlabels : ∀ op ∈ timerSystem.trace TimerSystem.ops timerSystem.init
        (as ++ [.start true taskId eventId timeout newTimer]), op.StrideLe (slack + 1) := by
      refine Machine.forall_mem_trace fun act hact _ op hop => ops_strideLe hop ?_
      rcases List.mem_append.mp hact with hact | hact
      · exact hstride act (List.mem_append_left _ hact)
      · rw [List.mem_singleton.mp hact]
        trivial
    exact Machine.exec_of_preserves (within_preserves (slack + 1)) (Nat.zero_le _)
      (Machine.along_of_forall hlabels _) ha
  obtain ⟨m, hcount, hlow, hhigh⟩ := rings_periodically hops (alarms_ok ha) hwithin
    (hR.alarm hfind hp hevent) (by rw [hreload rfl]; exact htimeout) hc hsettled
  have hmax : max timeout 1 = timeout := by omega
  dsimp only at hlow hhigh
  rw [TimerSystem.due, htime, hmax, hreload rfl, hnow] at hlow hhigh
  exact ⟨m, by rw [hevents, hcount, hR.settings], hlow, hhigh⟩

theorem reload_timer_rings_twice : ∃ s t : TimerSystem, times (2, 2) t.events = 2 ∧ ∃ m,
    times (2, 2) t.events = s.settings (2, 2) + m ∧
      (0 < m → s.uptime + 3 - (if s.ahead 200 then s.update.charge else 0) + m * 3 ≤ t.uptime + 3) ∧
      t.uptime < s.uptime + 3 - (if s.ahead 200 then s.update.charge else 0) + m * (3 + 3) := by
  obtain ⟨s, t, hs, hfind, ht, hidle, htimes⟩ := timerSystem.exists_exec_exec timerSystem.init
    ([] ++ [.start true 2 2 3 200]) [.update 4, .enter, .visit, .visit, .update 4, .enter, .visit,
      .visit]
    (fun s => osalFindTimer 2 2 s.timers = some 200)
    (fun t => t.update = .idle ∧ times (2, 2) t.events = 2) (by decide)
  refine ⟨s, t, htimes, ?_⟩
  refine reload_timer_rings hs hfind (by decide) (by decide) (by decide) ht ?_ ?_ hidle
  · intro b hb hsets
    simp only [List.mem_cons, List.not_mem_nil, or_false] at hb
    rcases hb with rfl | rfl | rfl | rfl | rfl | rfl | rfl | rfl <;> exact hsets
  · intro b hb
    simp only [List.nil_append, List.mem_cons, List.not_mem_nil, or_false] at hb
    rcases hb with rfl | rfl | rfl | rfl | rfl | rfl | rfl | rfl <;> simp [TimerAction.StrideLe]

/-- **A stopped timer is silent**: until it is started again its event is not set, unless the walk
had it in hand already when it was stopped. -/
theorem stopped_timer_silent (hs : timerSystem.exec timerSystem.init
      (as ++ [.stop taskId eventId]) = some s) (ht : timerSystem.exec s bs = some t)
    (hquiet : ∀ b ∈ bs, ¬ b.Starts (taskId, eventId)) :
    t.settings (taskId, eventId) = s.settings (taskId, eventId) := by
  obtain ⟨r, hr, hstep⟩ := timerSystem.exec_concat_eq_some.mp hs
  obtain ⟨b, -, hRr⟩ := timers_exec ticks_init hr
  obtain ⟨a, ha, hR⟩ := timers_step hRr hstep
  obtain ⟨c, hc, hRt⟩ := timers_exec hR ht
  have hnone : a.alarms (taskId, eventId) = none := by
    by_cases hzero : eventId = 0
    · obtain ⟨seen, todo, -, g⟩ := hR
      rw [hzero]
      exact g.shown.event_zero taskId
    · rw [TimerSystem.ops, if_neg hzero] at ha
      obtain ⟨a', ha', hnil⟩ := clock.exec_cons_eq_some.mp ha
      obtain rfl : a' = a := by simpa using hnil
      obtain rfl := Option.some.inj ha'
      exact Function.update_self _ _ _
  have hops : ∀ op ∈ timerSystem.trace TimerSystem.ops s bs, ¬ op.Starts (taskId, eventId) :=
    Machine.forall_mem_trace fun act hact _ op hop hk => hquiet act hact (ops_starts hop hk)
  rw [hRt.settings, hR.settings, rings_never hops hnone hc]

theorem stopped_timer_silent_seen : ∃ s t : TimerSystem, t.uptime = 4 ∧
    t.settings (1, 1) = s.settings (1, 1) := by
  obtain ⟨s, t, hs, -, ht, huptime⟩ := timerSystem.exists_exec_exec timerSystem.init
    ([.start false 1 1 3 100] ++ [.stop 1 1]) [.update 4, .enter, .visit, .raise, .free, .visit]
    (fun _ => True) (fun t => t.uptime = 4) (by decide)
  refine ⟨s, t, huptime, ?_⟩
  refine stopped_timer_silent hs ht ?_
  intro b hb hstarts
  simp only [List.mem_cons, List.not_mem_nil, or_false] at hb
  rcases hb with rfl | rfl | rfl | rfl | rfl | rfl <;> exact hstarts

end Events

end CourseDesign.Osal
