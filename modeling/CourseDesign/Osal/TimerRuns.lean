import CourseDesign.Lib.AlarmClock
import CourseDesign.Osal.Timers

/-!
# Timers and interrupts

`osalTimerUpdate` step by step, and the starting and stopping of timers that may come between any
two of its critical sections.

* `TimerSystem.Ok` — the records are in order, and the walk over them does not lose its place.
* `TimerSystem.Agrees` — they are the alarms of a clock, but for the stride in progress.
* `start_found`, `start_new`, `stop_step` — starting and stopping keep this at any time.
-/

namespace CourseDesign.Osal

open LinkedList AlarmClock

/-- `freeTimer` in `osalTimerUpdate`: there is none, or its event is still to be set, or only its
memory to be freed. -/
inductive FreeTimer where
  | null
  | raise (p : ℕ)
  | free (p : ℕ)
  deriving DecidableEq

/-- Where `osalTimerUpdate` is. -/
inductive UpdatePc where
  | idle
  /-- The system clock is advanced, and the list is not looked at yet. -/
  | advanced (updateTime : ℕ)
  /-- It is at the head of the loop, or behind the critical section of the loop. -/
  | walking (updateTime srchTimer prevTimer : ℕ) (freeTimer : FreeTimer)
  deriving DecidableEq

/-- The timers, and what is known of them in the rest of the system. -/
structure TimerSystem where
  timers : Timers
  /-- The records that are allocated. -/
  live : ℕ → Bool
  update : UpdatePc
  /-- The milliseconds since the start, which `osal_systemClock` counts with 32 bits. -/
  uptime : ℕ
  /-- The calls of `osal_set_event`. -/
  calls : List TimerKey

/-- The steps: starting and stopping timers, by a task or by an interrupt, and `osalTimerUpdate`. -/
inductive TimerAction where
  | start (reloads : Bool) (taskId : ℕ) (eventId : BitVec 16) (timeout newTimer : ℕ)
  | stop (taskId : ℕ) (eventId : BitVec 16)
  | update (updateTime : ℕ)
  | enter
  | visit
  | raise
  | free

/-- One critical section of the loop: it counts `srchTimer` down, reloads it or takes it out. -/
def TimerSystem.visit (s : TimerSystem) (updateTime srchTimer prevTimer : ℕ) : TimerSystem :=
  let r := (s.timers.timer srchTimer).countDown updateTime
  let timers := s.timers.write srchTimer r.reloaded
  let calls := if r.reloads then s.calls ++ [r.key] else s.calls
  if r.reloaded.finished then
    { s with
      timers := timers.unlink srchTimer prevTimer
      calls := calls
      update := .walking updateTime (s.timers.next srchTimer) prevTimer (.raise srchTimer) }
  else
    { s with
      timers := timers
      calls := calls
      update := .walking updateTime (s.timers.next srchTimer) srchTimer .null }

/-- A timer is started: the timers and the record it runs in, which may be a new one. -/
def TimerSystem.started (s : TimerSystem) (newTimer : ℕ) (r : Timers × ℕ) : TimerSystem :=
  { s with
    timers := r.1
    live := if r.2 = newTimer ∧ newTimer ≠ 0 then Function.update s.live newTimer true else s.live }

/-- The timers.  `osalTimeUpdate` calls `osalTimerUpdate` when some time has passed, and a new
record is one that is not allocated. -/
def timerSystem : Machine TimerSystem TimerAction where
  init :=
    { timers := ⟨fun _ => 0, fun _ => ⟨0, 0, 0, 0⟩, 0, 0⟩
      live := fun _ => false
      update := .idle
      uptime := 0
      calls := [] }
  step s
    | .start reloads taskId eventId timeout newTimer =>
        if newTimer = 0 ∨ newTimer < listMax ∧ s.live newTimer = false then
          (osalStart reloads taskId eventId timeout newTimer s.timers).map (s.started newTimer)
        else none
    | .stop taskId eventId =>
        (osalStopTimerEx taskId eventId s.timers).map fun r => { s with timers := r.1 }
    | .update updateTime =>
        match s.update with
        | .idle => Machine.when (0 < updateTime)
            { s with
              timers := { s.timers with
                systemClock := (s.timers.systemClock + updateTime) % 2 ^ 32 }
              uptime := s.uptime + updateTime
              update := .advanced updateTime }
        | _ => none
    | .enter =>
        match s.update with
        | .advanced updateTime => some { s with
            update := if s.timers.timerHead ≠ 0 then .walking updateTime s.timers.timerHead 0 .null
              else .idle }
        | _ => none
    | .visit =>
        match s.update with
        | .walking updateTime srchTimer prevTimer .null =>
            if srchTimer ≠ 0 then some (s.visit updateTime srchTimer prevTimer)
            else some { s with update := .idle }
        | _ => none
    | .raise =>
        match s.update with
        | .walking updateTime srchTimer prevTimer (.raise p) => some { s with
            calls := if (s.timers.timer p).timeout = 0 then s.calls ++ [(s.timers.timer p).key]
              else s.calls
            update := .walking updateTime srchTimer prevTimer (.free p) }
        | _ => none
    | .free =>
        match s.update with
        | .walking updateTime srchTimer prevTimer (.free p) => some { s with
            live := Function.update s.live p false
            update := .walking updateTime srchTimer prevTimer .null }
        | _ => none

/-! ## The invariant -/

/-- The record that is taken out and not freed yet. -/
def UpdatePc.held : UpdatePc → Option ℕ
  | .walking _ _ _ (.raise p) => some p
  | .walking _ _ _ (.free p) => some p
  | _ => none

/-- The time that the walk counts down. -/
def UpdatePc.charge : UpdatePc → ℕ
  | .idle => 0
  | .advanced updateTime => updateTime
  | .walking updateTime _ _ _ => updateTime

/-- `osalTimerUpdate` has `seen` some of the records and still has some `todo`. -/
def UpdatePc.At (seen todo : List ℕ) : UpdatePc → Prop
  | .idle => todo = []
  | .advanced updateTime => 0 < updateTime ∧ seen = []
  | .walking updateTime srchTimer prevTimer _ => 0 < updateTime ∧ srchTimer = todo.head?.getD 0 ∧
      (todo ≠ [] → prevTimer = seen.getLast?.getD 0)

/-- The records are in order. -/
structure TimerSystem.Ok (s : TimerSystem) (seen todo : List ℕ) : Prop where
  list : IsList s.timers.next s.timers.timerHead (seen ++ todo)
  live : ∀ p ∈ seen ++ todo, s.live p = true
  place : ∀ p, s.live p = true → p ≠ 0 ∧ p < listMax
  /-- A timer has one record. -/
  one : ∀ p ∈ seen ++ todo, ∀ p' ∈ seen ++ todo,
    (s.timers.timer p).key = (s.timers.timer p').key → (s.timers.timer p).eventFlag ≠ 0 → p = p'
  clock : s.timers.systemClock = s.uptime % 2 ^ 32
  pc : s.update.At seen todo
  held : ∀ p, s.update.held = some p → s.live p = true ∧ p ∉ seen ++ todo

/-- The events that are due and not set yet. -/
def TimerSystem.pending (s : TimerSystem) : List TimerKey :=
  match s.update with
  | .walking _ _ _ (.raise p) =>
      if (s.timers.timer p).timeout = 0 ∧ (s.timers.timer p).eventFlag ≠ 0 then
        [(s.timers.timer p).key]
      else []
  | _ => []

/-- The alarm of a record: its timeout, and for the walk in progress if that is still to come. -/
def TimerSystem.alarm (s : TimerSystem) (todo : List ℕ) (p : ℕ) : Alarm :=
  ⟨s.uptime + max (s.timers.timer p).timeout 1 - (if p ∈ todo then s.update.charge else 0),
    (s.timers.timer p).reloadTimeout⟩

/-- The calls of `osal_set_event` that set an event. -/
def TimerSystem.events (s : TimerSystem) : List TimerKey := s.calls.filter fun k => k.2 ≠ 0

/-- The records of `q` are the alarms, and there is no other. -/
structure Shown (timer : ℕ → OsalTimerRec) (alarm : ℕ → Alarm) (q : List ℕ)
    (alarms : TimerKey → Option Alarm) : Prop where
  alarm : ∀ p ∈ q, (timer p).eventFlag ≠ 0 → alarms (timer p).key = some (alarm p)
  only : ∀ k, alarms k ≠ none → k.2 ≠ 0 ∧ ∃ p ∈ q, (timer p).key = k

/-- The records are the alarms of a clock. -/
structure TimerSystem.Agrees (s : TimerSystem) (seen todo : List ℕ) (a : State TimerKey) :
    Prop where
  now : a.now = s.uptime
  settled : a.settled + s.update.charge = s.uptime
  shown : Shown s.timers.timer (s.alarm todo) (seen ++ todo) a.alarms
  rung : a.rung = s.events ++ s.pending

/-- The record is one that the walk in progress comes to. -/
def TimerSystem.ahead (s : TimerSystem) (p : ℕ) : Bool :=
  match s.update with
  | .idle => false
  | .advanced _ => true
  | .walking _ srchTimer _ _ =>
      findNode s.timers.next (fun x => x = p) (listMax + 1) srchTimer = some p

/-- What a step does to the alarms. -/
def TimerSystem.ops (s : TimerSystem) : TimerAction → List (Op TimerKey)
  | .start reloads taskId eventId timeout newTimer =>
      match osalStart reloads taskId eventId timeout newTimer s.timers with
      | some (timers, p) =>
          if p = 0 ∨ eventId = 0 then []
          else [.start (taskId, eventId) (max timeout 1)
            ({ s with timers := timers }.ahead p) (if reloads then some timeout else none)]
      | none => []
  | .stop taskId eventId => if eventId = 0 then [] else [.cancel (taskId, eventId)]
  | .update updateTime => [.pass updateTime]
  | .enter => if s.timers.timerHead = 0 then [.settle] else []
  | .visit =>
      match s.update with
      | .walking updateTime srchTimer _ .null =>
          if srchTimer = 0 then [.settle]
          else
            let r := (s.timers.timer srchTimer).countDown updateTime
            if r.timeout = 0 ∧ r.eventFlag ≠ 0 then [.ring r.key] else []
      | _ => []
  | .raise => []
  | .free => []

section Lists

variable {s : TimerSystem} {seen todo : List ℕ} {a : State TimerKey} {p : ℕ}

theorem TimerSystem.Ok.length_le (h : s.Ok seen todo) : (seen ++ todo).length ≤ listMax :=
  length_le_of_lt h.list.nodup fun p hp => (h.place p (h.live p hp)).2

/-- Whoever is on the list is not the record that is taken out. -/
theorem TimerSystem.Ok.ne_held (h : s.Ok seen todo) (hp : p ∈ seen ++ todo) :
    ∀ x, s.update.held = some x → x ≠ p := by
  rintro x hx rfl
  exact (h.held x hx).2 hp

theorem TimerSystem.Ok.ahead_iff (h : s.Ok seen todo) (hp : p ∈ seen ++ todo) :
    s.ahead p = true ↔ p ∈ todo := by
  have hlen := h.length_le
  have hpc := h.pc
  rw [TimerSystem.ahead]
  cases hu : s.update with
  | idle =>
      rw [hu] at hpc
      obtain rfl : todo = [] := hpc
      simp
  | advanced u =>
      rw [hu] at hpc
      obtain ⟨-, rfl⟩ := hpc
      simpa using hp
  | walking u srch prev free =>
      rw [hu] at hpc
      obtain ⟨c, -, hseg⟩ := seg_append.mp h.list.seg
      have hsrch : srch = c := by
        rw [hpc.2.1]
        cases todo with
        | nil => exact Eq.symm hseg
        | cons x todo => exact hseg.1.symm
      have hzero : 0 ∉ todo := fun h0 => h.list.zero_notMem (List.mem_append_right _ h0)
      rw [List.length_append] at hlen
      rw [hsrch, decide_eq_true_iff, findNode_eq hseg hzero (by omega), Option.some.injEq]
      cases hfind : todo.find? (fun x => decide (x = p)) with
      | none =>
          have hne := List.find?_eq_none.mp hfind
          have hp0 : (0 : ℕ) ≠ p := (h.list.ne_zero hp).symm
          simp only [Option.getD_none, hp0, false_iff]
          exact fun hmem => hne p hmem (by simp)
      | some x =>
          obtain rfl : x = p := by simpa using List.find?_some hfind
          simp [List.mem_of_find?_eq_some hfind]

/-- Writing a record changes nothing of the others. -/
theorem Timers.write_of_ne (s : Timers) (r : OsalTimerRec) {x : ℕ} (hx : x ≠ p) :
    (s.write p r).timer x = s.timer x :=
  Function.update_of_ne hx _ _

@[simp] theorem Timers.write_self (s : Timers) (r : OsalTimerRec) : (s.write p r).timer p = r :=
  Function.update_self _ _ _

theorem flag_eq {r r' : OsalTimerRec} (h : r.key = r'.key) : r.eventFlag = r'.eventFlag :=
  congrArg Prod.snd h

/-- There are no alarms for the event 0. -/
theorem Shown.event_zero {timer : ℕ → OsalTimerRec} {alarm : ℕ → Alarm} {q : List ℕ}
    {alarms : TimerKey → Option Alarm} (g : Shown timer alarm q alarms) (taskId : ℕ) :
    alarms (taskId, 0) = none := by
  by_contra h
  exact (g.only (taskId, 0) h).1 rfl

/-- **One record is changed**, put on the list or taken out, and with it the alarm of its timer. -/
theorem Shown.set {timer timer' : ℕ → OsalTimerRec} {alarm alarm' : ℕ → Alarm} {q q' : List ℕ}
    {alarms : TimerKey → Option Alarm} {k : TimerKey} (g : Shown timer alarm q alarms)
    (al : Option Alarm)
    (hq : ∀ x, x ≠ p → (x ∈ q' ↔ x ∈ q))
    (htimer : ∀ x ∈ q, x ≠ p → timer' x = timer x ∧ alarm' x = alarm x)
    (hkey : ∀ x ∈ q, (timer x).eventFlag ≠ 0 → ((timer x).key = k ↔ x = p))
    (hal : p ∈ q' → (timer' p).eventFlag ≠ 0 → (timer' p).key = k ∧ al = some (alarm' p))
    (hsome : al ≠ none → k.2 ≠ 0 ∧ p ∈ q' ∧ (timer' p).key = k) :
    Shown timer' alarm' q' (Function.update alarms k al) := by
  constructor
  · intro x hx hflag
    by_cases hxp : x = p
    · subst hxp
      obtain ⟨hk, rfl⟩ := hal hx hflag
      rw [hk, Function.update_self]
    · have hxq := (hq x hxp).mp hx
      obtain ⟨hsame, halarm⟩ := htimer x hxq hxp
      rw [hsame] at hflag ⊢
      have hne : (timer x).key ≠ k := fun h => hxp ((hkey x hxq hflag).mp h)
      rw [Function.update_of_ne hne, halarm]
      exact g.alarm x hxq hflag
  · intro j hj
    by_cases hjk : j = k
    · subst hjk
      rw [Function.update_self] at hj
      obtain ⟨hne, hp, hk⟩ := hsome hj
      exact ⟨hne, p, hp, hk⟩
    · rw [Function.update_of_ne hjk] at hj
      obtain ⟨hne, x, hx, rfl⟩ := g.only j hj
      have hxp : x ≠ p := fun h => hjk ((hkey x hx hne).mpr h)
      refine ⟨hne, x, (hq x hxp).mpr hx, ?_⟩
      rw [(htimer x hx hxp).1]

end Lists

/-! ## Interrupts -/

section Interrupts

variable {s : TimerSystem} {seen todo : List ℕ} {a : State TimerKey} {p taskId timeout newTimer : ℕ}
  {eventId : BitVec 16} {r : OsalTimerRec}

/-- A record that is written keeps its timer or is stopped. -/
theorem TimerSystem.Ok.write (h : s.Ok seen todo) (hp : p ∈ seen ++ todo)
    (hr : r.key = (s.timers.timer p).key ∨ r.eventFlag = 0) :
    { s with timers := s.timers.write p r }.Ok seen todo := by
  refine ⟨h.list, h.live, h.place, ?_, h.clock, h.pc, h.held⟩
  intro x hx y hy hkey hflag
  dsimp only at hkey hflag
  by_cases hxp : x = p
  · by_cases hyp : y = p
    · rw [hxp, hyp]
    · rw [hxp, Timers.write_self, Timers.write_of_ne _ _ hyp] at hkey
      rw [hxp, Timers.write_self] at hflag
      have hold := hr.resolve_right hflag
      rw [hxp]
      exact h.one p hp y hy (hold.symm.trans hkey) (by rwa [← flag_eq hold])
  · rw [Timers.write_of_ne _ _ hxp] at hkey hflag
    by_cases hyp : y = p
    · rw [hyp, Timers.write_self] at hkey
      have hflag' : r.eventFlag ≠ 0 := by rwa [← flag_eq hkey]
      rw [hyp]
      exact h.one x hx p hp (hkey.trans (hr.resolve_right hflag')) hflag
    · rw [Timers.write_of_ne _ _ hyp] at hkey
      exact h.one x hx y hy hkey hflag

/-- A new record goes to the end of the list; the walk in progress comes to it, unless it is
through. -/
theorem UpdatePc.At.append {pc : UpdatePc} (h : pc.At seen todo) (p : ℕ) : ∃ seen' todo',
    seen' ++ todo' = seen ++ todo ++ [p] ∧ pc.At seen' todo' ∧
      ∀ x, x ≠ p → (x ∈ todo' ↔ x ∈ todo) := by
  have hend : ∃ todo', seen ++ todo' = seen ++ todo ++ [p] ∧
      ∀ x, x ≠ p → (x ∈ todo' ↔ x ∈ todo) := by
    refine ⟨todo ++ [p], by rw [List.append_assoc], fun x hx => ?_⟩
    rw [List.mem_append, List.mem_singleton, or_iff_left hx]
  cases pc with
  | idle =>
      obtain rfl : todo = [] := h
      exact ⟨seen ++ [p], [], by simp, rfl, fun x _ => Iff.rfl⟩
  | advanced u =>
      obtain ⟨todo', heq, hmem⟩ := hend
      exact ⟨seen, todo', heq, h, hmem⟩
  | walking u srch prev free =>
      obtain ⟨hpos, hsrch, hprev⟩ := h
      cases todo with
      | nil => exact ⟨seen ++ [p], [], by simp, ⟨hpos, hsrch, by simp⟩, fun x _ => Iff.rfl⟩
      | cons y todo =>
          refine ⟨seen, y :: todo ++ [p], by simp, ⟨hpos, hsrch, fun _ => hprev (by simp)⟩, ?_⟩
          intro x hx
          rw [List.mem_append, List.mem_singleton, or_iff_left hx]

/-- A new record. -/
theorem TimerSystem.Ok.append {seen' todo' : List ℕ} {next : ℕ → ℕ} {head : ℕ} (h : s.Ok seen todo)
    (hzero : p ≠ 0) (hlt : p < listMax) (hp : s.live p = false)
    (hlist : IsList next head (seen' ++ todo')) (hq : seen' ++ todo' = seen ++ todo ++ [p])
    (hpc : s.update.At seen' todo')
    (hkey : ∀ x ∈ seen ++ todo, (s.timers.timer x).key ≠ r.key) :
    { s with
      timers := { s.timers with next := next, timerHead := head }.write p r
      live := Function.update s.live p true }.Ok seen' todo' := by
  have hne : ∀ x, s.live x = true → x ≠ p := by
    rintro x hx rfl
    rw [hx] at hp
    cases hp
  have hmem : ∀ x ∈ seen' ++ todo', x ∈ seen ++ todo ∨ x = p := by
    intro x hx
    rw [hq, List.mem_append, List.mem_singleton] at hx
    exact hx
  refine ⟨hlist, ?_, ?_, ?_, h.clock, hpc, ?_⟩
  · intro x hx
    rcases hmem x hx with hx | rfl
    · have hlive := h.live x hx
      dsimp only
      rwa [Function.update_of_ne (hne x hlive)]
    · exact Function.update_self _ _ _
  · intro x hx
    by_cases hxp : x = p
    · rw [hxp]
      exact ⟨hzero, hlt⟩
    · dsimp only at hx
      rw [Function.update_of_ne hxp] at hx
      exact h.place x hx
  · intro x hx y hy hk hflag
    dsimp only at hk hflag
    rcases hmem x hx with hx | rfl
    · have hxp := hne x (h.live x hx)
      rw [Timers.write_of_ne _ _ hxp] at hk hflag
      rcases hmem y hy with hy | rfl
      · rw [Timers.write_of_ne _ _ (hne y (h.live y hy))] at hk
        exact h.one x hx y hy hk hflag
      · rw [Timers.write_self] at hk
        exact absurd hk (hkey x hx)
    · rw [Timers.write_self] at hk
      rcases hmem y hy with hy | rfl
      · rw [Timers.write_of_ne _ _ (hne y (h.live y hy))] at hk
        exact absurd hk.symm (hkey y hy)
      · rfl
  · intro x hx
    obtain ⟨hlive, hnot⟩ := h.held x hx
    have hxp := hne x hlive
    refine ⟨?_, ?_⟩
    · dsimp only
      rwa [Function.update_of_ne hxp]
    · intro hmem'
      exact (hmem x hmem').elim hnot hxp

/-- What is pending is a record that nobody writes to. -/
theorem pending_congr {timers : Timers} {live : ℕ → Bool}
    (h : ∀ x, s.update.held = some x → timers.timer x = s.timers.timer x) :
    { s with timers := timers, live := live }.pending = s.pending := by
  rw [TimerSystem.pending, TimerSystem.pending]
  cases hu : s.update with
  | idle => rfl
  | advanced u => rfl
  | walking u srch prev free =>
      cases free with
      | null => rfl
      | raise x =>
          have hx := h x (by rw [hu]; rfl)
          simp only [hx]
      | free x => rfl

/-- **Starting a timer** sets its alarm. -/
theorem TimerSystem.Agrees.start (seen' todo' : List ℕ) (timers : Timers) (live : ℕ → Bool)
    (g : s.Agrees seen todo a) (htimer : timers.timer = Function.update s.timers.timer p r)
    (hq : ∀ x, x ∈ seen' ++ todo' ↔ x ∈ seen ++ todo ∨ x = p)
    (htodo : ∀ x ∈ seen ++ todo, x ≠ p → (x ∈ todo' ↔ x ∈ todo))
    (hheld : ∀ x, s.update.held = some x → x ≠ p)
    (hkey : ∀ x ∈ seen ++ todo, (s.timers.timer x).eventFlag ≠ 0 →
      ((s.timers.timer x).key = r.key ↔ x = p)) :
    { s with timers := timers, live := live }.Agrees seen' todo'
      { a with
        alarms := if r.eventFlag = 0 then a.alarms else Function.update a.alarms r.key
          (some ({ s with timers := timers, live := live }.alarm todo' p)) } := by
  have hself : timers.timer p = r := by
    rw [htimer, Function.update_self]
  have hother : ∀ x, x ≠ p → timers.timer x = s.timers.timer x := by
    intro x hx
    rw [htimer, Function.update_of_ne hx]
  have hothers : ∀ x ∈ seen ++ todo, x ≠ p → timers.timer x = s.timers.timer x ∧
      { s with timers := timers, live := live }.alarm todo' x = s.alarm todo x := by
    intro x hx hxp
    refine ⟨hother x hxp, ?_⟩
    simp only [TimerSystem.alarm, hother x hxp, htodo x hx hxp]
  have hmem : ∀ x, x ≠ p → (x ∈ seen' ++ todo' ↔ x ∈ seen ++ todo) := by
    intro x hx
    rw [hq, or_iff_left hx]
  refine ⟨g.now, g.settled, ?_, ?_⟩
  · by_cases hzero : r.eventFlag = 0
    · have hnone : a.alarms r.key = none := by
        have hk : r.key = (r.taskId, 0) := by rw [OsalTimerRec.key, hzero]
        rw [hk]
        exact g.shown.event_zero _
      have hset := g.shown.set none hmem hothers hkey
        (fun _ hflag => absurd (hself ▸ hzero) hflag) (fun h => absurd rfl h)
      rw [← hnone, Function.update_eq_self] at hset
      simpa only [if_pos hzero] using hset
    · simp only [if_neg hzero]
      refine g.shown.set _ hmem hothers hkey (fun _ _ => ⟨by rw [hself], rfl⟩) fun _ => ?_
      exact ⟨hzero, (hq p).mpr (Or.inr rfl), by rw [hself]⟩
  · rw [pending_congr fun x hx => hother x (hheld x hx)]
    exact g.rung

/-- The clock starts the alarm that the record shows. -/
theorem exec_start (s' : TimerSystem) {todo' : List ℕ} (reloads : Bool) (g : s.Agrees seen todo a)
    (hp : p ≠ 0) (huptime : s'.uptime = s.uptime) (hpc : s'.update = s.update)
    (hahead : s'.ahead p = true ↔ p ∈ todo')
    (hr : eventId ≠ 0 → s'.timers.timer p = ⟨timeout, eventId, taskId,
      if reloads then timeout else a.reload (taskId, eventId)⟩) :
    clock.exec a (if p = 0 ∨ eventId = 0 then []
      else [.start (taskId, eventId) (max timeout 1) (s'.ahead p)
        (if reloads then some timeout else none)]) =
      some { a with
        alarms := if eventId = 0 then a.alarms
          else Function.update a.alarms (taskId, eventId) (some (s'.alarm todo' p)) } := by
  by_cases hzero : eventId = 0
  · rw [if_pos (Or.inr hzero), if_pos hzero]
    rfl
  · have hcharge : a.origin (s'.ahead p) + (if p ∈ todo' then s'.update.charge else 0) =
        s'.uptime := by
      have hsettled := g.settled
      by_cases hp' : p ∈ todo'
      · rw [State.origin, if_pos (hahead.mpr hp'), if_pos hp', hpc, hsettled, huptime]
      · rw [State.origin, if_neg fun h => hp' (hahead.mp h), if_neg hp', g.now, huptime,
          Nat.add_zero]
    have halarm : s'.alarm todo' p = ⟨a.origin (s'.ahead p) + max timeout 1,
        (if reloads then some timeout else none).getD (a.reload (taskId, eventId))⟩ := by
      have hdeadline : s'.uptime + max timeout 1 - (if p ∈ todo' then s'.update.charge else 0) =
          a.origin (s'.ahead p) + max timeout 1 := by omega
      rw [TimerSystem.alarm, hr hzero, hdeadline]
      cases reloads with
      | false => rfl
      | true => rfl
    rw [if_neg (not_or.mpr ⟨hp, hzero⟩), if_neg hzero, halarm, clock.exec_cons_eq_some]
    exact ⟨_, Machine.when_eq_some.mpr ⟨by omega, rfl⟩, rfl⟩

/-- The record in which a timer was started. -/
def ShowsStart (r : Timers × ℕ) (reloads : Bool) (taskId : ℕ) (eventId : BitVec 16) (timeout : ℕ)
    (q : List ℕ) : Prop :=
  r.2 ∈ q ∧ ∃ reload, r.1.timer r.2 = ⟨timeout, eventId, taskId, reload⟩ ∧
    (reloads = true → reload = timeout)

/-- **A timer that has a record is started** in it. -/
theorem start_found (h : s.Ok seen todo) (g : s.Agrees seen todo a) (reloads : Bool) (timeout : ℕ)
    (hnew : newTimer = 0 ∨ newTimer < listMax ∧ s.live newTimer = false)
    (hrec : s.timers.record (seen ++ todo) (taskId, eventId) = some p) :
    ∃ r a', osalStart reloads taskId eventId timeout newTimer s.timers = some r ∧
      (s.started newTimer r).Ok seen todo ∧
      clock.exec a (s.ops (.start reloads taskId eventId timeout newTimer)) = some a' ∧
      (s.started newTimer r).Agrees seen todo a' ∧
      ShowsStart r reloads taskId eventId timeout (seen ++ todo) := by
  obtain ⟨hp, hk⟩ := record_some hrec
  have hkey : (s.timers.timer p).taskId = taskId ∧ (s.timers.timer p).eventFlag = eventId := by
    simpa [OsalTimerRec.key] using hk
  have hstart := osalStart_found reloads timeout newTimer h.list h.length_le hrec
  simp only [hkey.1, hkey.2] at hstart
  set r : OsalTimerRec := ⟨timeout, eventId, taskId,
    if reloads then timeout else (s.timers.timer p).reloadTimeout⟩ with hr
  have hstarted : s.started newTimer (s.timers.write p r, p) =
      { s with timers := s.timers.write p r } := by
    have hlive : ¬ (p = newTimer ∧ newTimer ≠ 0) := by
      rintro ⟨rfl, hzero⟩
      have hfree := (hnew.resolve_left hzero).2
      rw [h.live p hp] at hfree
      cases hfree
    rw [TimerSystem.started, if_neg hlive]
  have hok : { s with timers := s.timers.write p r }.Ok seen todo :=
    h.write hp (Or.inl hk.symm)
  have hagrees := TimerSystem.Agrees.start seen todo (s.timers.write p r) s.live g rfl
    (fun x => ⟨Or.inl, fun hx => hx.elim id fun hxp => hxp ▸ hp⟩) (fun x _ _ => Iff.rfl)
    (h.ne_held hp)
    (fun x hx hflag => ⟨fun hxk => h.one x hx p hp (hxk.trans hk.symm) hflag,
      fun hxp => hxp ▸ hk⟩)
  rw [← hstarted] at hagrees
  refine ⟨_, _, hstart, ?_, ?_, hagrees, hp, _, Timers.write_self _ _, fun h => by rw [h]; rfl⟩
  · rw [hstarted]
    exact hok
  · simp only [TimerSystem.ops, hstart]
    refine exec_start { s with timers := s.timers.write p r } reloads g
      (h.list.ne_zero hp) rfl rfl (hok.ahead_iff hp) fun hzero => ?_
    have hreload : a.reload (taskId, eventId) = (s.timers.timer p).reloadTimeout := by
      have halarm := g.shown.alarm p hp (by rwa [hkey.2])
      rw [hk] at halarm
      rw [State.reload, halarm]
      rfl
    rw [hreload]
    exact Timers.write_self _ _

/-- **A timer without a record is started** in a new one. -/
theorem start_new (h : s.Ok seen todo) (g : s.Agrees seen todo a) (reloads : Bool) (timeout : ℕ)
    (hzero : newTimer ≠ 0) (hlt : newTimer < listMax) (hfree : s.live newTimer = false)
    (hrec : s.timers.record (seen ++ todo) (taskId, eventId) = none) :
    ∃ r seen' todo' a', osalStart reloads taskId eventId timeout newTimer s.timers = some r ∧
      (s.started newTimer r).Ok seen' todo' ∧
      clock.exec a (s.ops (.start reloads taskId eventId timeout newTimer)) = some a' ∧
      (s.started newTimer r).Agrees seen' todo' a' ∧
      ShowsStart r reloads taskId eventId timeout (seen' ++ todo') := by
  have hnot : newTimer ∉ seen ++ todo := by
    intro hmem
    rw [h.live newTimer hmem] at hfree
    cases hfree
  have hother : ∀ x ∈ seen ++ todo, (s.timers.timer x).key ≠ (taskId, eventId) :=
    fun x hx => record_none hrec hx
  obtain ⟨next, head, hstart, hlist⟩ := osalStart_new reloads timeout h.list h.length_le hrec
    hnot hzero
  set r : OsalTimerRec := ⟨timeout, eventId, taskId, if reloads then timeout else 0⟩ with hr
  obtain ⟨seen', todo', hq, hpc, htodo⟩ := h.pc.append newTimer
  rw [← hq] at hlist
  set timers := { s.timers with next := next, timerHead := head }.write newTimer r with htimers
  have hstarted : s.started newTimer (timers, newTimer) =
      { s with timers := timers, live := Function.update s.live newTimer true } := by
    rw [TimerSystem.started, if_pos ⟨rfl, hzero⟩]
  have hok := h.append (r := r) hzero hlt hfree hlist hq hpc hother
  have hmem : ∀ x, x ∈ seen' ++ todo' ↔ x ∈ seen ++ todo ∨ x = newTimer := by
    intro x
    rw [hq, List.mem_append, List.mem_singleton]
  have hheld : ∀ x, s.update.held = some x → x ≠ newTimer := by
    rintro x hx rfl
    rw [(h.held x hx).1] at hfree
    cases hfree
  have hagrees := TimerSystem.Agrees.start seen' todo' timers (Function.update s.live newTimer true)
    g rfl hmem (fun x _ hx => htodo x hx) hheld
    (fun x hx _ => ⟨fun hxk => absurd hxk (hother x hx), fun hxp => absurd hx (hxp ▸ hnot)⟩)
  rw [← hstarted] at hagrees
  refine ⟨_, seen', todo', _, hstart, ?_, ?_, hagrees, (hmem newTimer).mpr (Or.inr rfl), _,
    Timers.write_self _ _, fun h => by rw [h]; rfl⟩
  · rw [hstarted]
    exact hok
  · simp only [TimerSystem.ops, hstart]
    have hahead := hok.ahead_iff ((hmem newTimer).mpr (Or.inr rfl))
    refine exec_start { s with
      timers := timers
      live := Function.update s.live newTimer true } reloads g hzero rfl rfl hahead fun _ => ?_
    have hnone : a.alarms (taskId, eventId) = none := by
      by_contra hne
      obtain ⟨-, x, hx, hk⟩ := g.shown.only _ hne
      exact hother x hx hk
    have hreload : a.reload (taskId, eventId) = 0 := by
      rw [State.reload, hnone]
      rfl
    rw [hreload]
    exact Timers.write_self _ _

/-- **A timer is started**, or there is no memory for it. -/
theorem start_step (h : s.Ok seen todo) (g : s.Agrees seen todo a) (reloads : Bool) (taskId : ℕ)
    (eventId : BitVec 16) (timeout : ℕ)
    (hnew : newTimer = 0 ∨ newTimer < listMax ∧ s.live newTimer = false) :
    ∃ r seen' todo' a', osalStart reloads taskId eventId timeout newTimer s.timers = some r ∧
      (s.started newTimer r).Ok seen' todo' ∧
      clock.exec a (s.ops (.start reloads taskId eventId timeout newTimer)) = some a' ∧
      (s.started newTimer r).Agrees seen' todo' a' ∧
      (ShowsStart r reloads taskId eventId timeout (seen' ++ todo') ∨
        r = (s.timers, 0) ∧ s.timers.record (seen ++ todo) (taskId, eventId) = none) := by
  cases hrec : s.timers.record (seen ++ todo) (taskId, eventId) with
  | some p =>
      obtain ⟨r, a', hstart, hok, hexec, hagrees, hshows⟩ :=
        start_found h g reloads timeout hnew hrec
      exact ⟨r, seen, todo, a', hstart, hok, hexec, hagrees, Or.inl hshows⟩
  | none =>
      rcases Nat.eq_zero_or_pos newTimer with rfl | hpos
      · have hstart := osalStart_null reloads timeout h.list h.length_le hrec
        have hstarted : s.started 0 (s.timers, 0) = s := by
          rw [TimerSystem.started, if_neg fun h => h.2 rfl]
        refine ⟨_, seen, todo, a, hstart, ?_, ?_, ?_, Or.inr ⟨rfl, rfl⟩⟩
        · rw [hstarted]
          exact h
        · simp only [TimerSystem.ops, hstart]
          rfl
        · rw [hstarted]
          exact g
      · obtain ⟨hlt, hfree⟩ := hnew.resolve_left hpos.ne'
        obtain ⟨r, seen', todo', a', hstart, hok, hexec, hagrees, hshows⟩ :=
          start_new h g reloads timeout hpos.ne' hlt hfree hrec
        exact ⟨r, seen', todo', a', hstart, hok, hexec, hagrees, Or.inl hshows⟩

/-- **A timer is stopped**, and so is its alarm. -/
theorem stop_step (h : s.Ok seen todo) (g : s.Agrees seen todo a) (taskId : ℕ)
    (eventId : BitVec 16) :
    ∃ r a', osalStopTimerEx taskId eventId s.timers = some r ∧
      { s with timers := r.1 }.Ok seen todo ∧
      clock.exec a (s.ops (.stop taskId eventId)) = some a' ∧
      { s with timers := r.1 }.Agrees seen todo a' := by
  have hexec : clock.exec a (s.ops (.stop taskId eventId)) =
      some { a with alarms := Function.update a.alarms (taskId, eventId) none } := by
    by_cases hzero : eventId = 0
    · have hnone : Function.update a.alarms (taskId, eventId) none = a.alarms := by
        rw [hzero, ← g.shown.event_zero taskId, Function.update_eq_self]
      rw [hnone, TimerSystem.ops, if_pos hzero]
      rfl
    · rw [TimerSystem.ops, if_neg hzero]
      rfl
  cases hrec : s.timers.record (seen ++ todo) (taskId, eventId) with
  | none =>
      have hnone : a.alarms (taskId, eventId) = none := by
        by_contra hne
        obtain ⟨-, x, hx, hk⟩ := g.shown.only _ hne
        exact record_none hrec hx hk
      rw [← hnone, Function.update_eq_self] at hexec
      exact ⟨_, _, osalStopTimerEx_none h.list h.length_le hrec, h, hexec, g⟩
  | some p =>
      obtain ⟨hp, hk⟩ := record_some hrec
      refine ⟨_, _, osalStopTimerEx_found h.list h.length_le hrec, h.write hp (Or.inr rfl), hexec,
        ?_⟩
      have hother : ∀ x, x ≠ p → (s.timers.write p { s.timers.timer p with
          eventFlag := 0 }).timer x = s.timers.timer x :=
        fun x hx => Timers.write_of_ne _ _ hx
      refine ⟨g.now, g.settled, ?_, ?_⟩
      · refine g.shown.set none (fun x _ => Iff.rfl) (fun x _ hx => ⟨hother x hx, ?_⟩) ?_ ?_
          fun h => absurd rfl h
        · simp only [TimerSystem.alarm, hother x hx]
        · intro x hx hflag
          constructor
          · intro hxk
            exact h.one x hx p hp (hxk.trans hk.symm) hflag
          · rintro rfl
            exact hk
        · intro _ hflag
          rw [Timers.write_self] at hflag
          exact absurd rfl hflag
      · rw [pending_congr fun x hx => hother x (h.ne_held hp x hx)]
        exact g.rung

end Interrupts

end CourseDesign.Osal
