import CourseDesign.Osal.TimerRuns

/-!
# Counting down the timers

The walk of `osalTimerUpdate` over the records, and what follows for the events of the timers.

* `visit_step`, `timers_step` — every step keeps the records in order, and the clock follows it.
-/

namespace CourseDesign.Osal

open LinkedList AlarmClock

section Update

variable {s : TimerSystem} {seen todo : List ℕ} {a : State TimerKey} {p u prev : ℕ}

/-- The record that the walk is at is the first that is still to do. -/
theorem walking_cons {srch : ℕ} {free : FreeTimer} (h : s.Ok seen todo)
    (hu : s.update = .walking u srch prev free) (hsrch : srch ≠ 0) : ∃ rest,
    todo = srch :: rest ∧ 0 < u ∧ prev = seen.getLast?.getD 0 ∧
      s.timers.next srch = rest.head?.getD 0 := by
  have hpc := h.pc
  rw [hu] at hpc
  obtain ⟨hpos, hhead, hprev⟩ := hpc
  cases todo with
  | nil => exact absurd hhead hsrch
  | cons x rest =>
      obtain rfl : srch = x := hhead
      refine ⟨rest, rfl, hpos, hprev (by simp), ?_⟩
      obtain ⟨c, -, rfl, hrest⟩ := seg_append.mp h.list.seg
      cases rest with
      | nil => exact hrest
      | cons y rest => exact hrest.1

/-- The record stays in the list. -/
theorem TimerSystem.Ok.keep {srch : ℕ} {rest : List ℕ} {r : OsalTimerRec} {calls : List TimerKey}
    (h : s.Ok seen (srch :: rest)) (hu : 0 < u) (hnext : s.timers.next srch = rest.head?.getD 0)
    (hr : r.key = (s.timers.timer srch).key) :
    { s with
      timers := s.timers.write srch r
      calls := calls
      update := .walking u (s.timers.next srch) srch .null }.Ok (seen ++ [srch]) rest := by
  have hq : seen ++ [srch] ++ rest = seen ++ srch :: rest := by simp
  have hwrite := h.write (r := r) (by simp : srch ∈ seen ++ srch :: rest) (Or.inl hr)
  refine ⟨?_, ?_, hwrite.place, ?_, hwrite.clock, ⟨hu, hnext, fun _ => by simp⟩, ?_⟩
  · rw [hq]
    exact hwrite.list
  · rw [hq]
    exact hwrite.live
  · rw [hq]
    exact hwrite.one
  · rintro x ⟨⟩

/-- The record is taken out. -/
theorem TimerSystem.Ok.drop {srch : ℕ} {rest : List ℕ} {r : OsalTimerRec} {calls : List TimerKey}
    (h : s.Ok seen (srch :: rest)) (hu : 0 < u) (hprev : prev = seen.getLast?.getD 0)
    (hnext : s.timers.next srch = rest.head?.getD 0) (hr : r.key = (s.timers.timer srch).key) :
    { s with
      timers := (s.timers.write srch r).unlink srch prev
      calls := calls
      update := .walking u (s.timers.next srch) prev (.raise srch) }.Ok seen rest := by
  have hmem : srch ∈ seen ++ srch :: rest := by simp
  have hwrite := h.write (r := r) hmem (Or.inl hr)
  have hsub : ∀ x ∈ seen ++ rest, x ∈ seen ++ srch :: rest := by
    intro x hx
    rw [List.mem_append, List.mem_cons]
    exact (List.mem_append.mp hx).imp_right Or.inr
  have hnodup := h.list.nodup
  rw [List.nodup_middle, List.nodup_cons] at hnodup
  refine ⟨?_, fun x hx => h.live x (hsub x hx), h.place, ?_, ?_, ⟨hu, hnext, fun _ => hprev⟩, ?_⟩
  · rw [hprev]
    exact (Timers.unlink_isList hwrite.list).1
  · intro x hx y hy
    rw [Timers.unlink_timer]
    exact hwrite.one x (hsub x hx) y (hsub y hy)
  · rw [Timers.unlink_systemClock]
    exact h.clock
  · rintro x ⟨⟩
    exact ⟨h.live srch hmem, hnodup.1⟩

/-- The alarms of the other records: the walk counts for those that it has not seen. -/
theorem alarm_congr {s' : TimerSystem} {srch : ℕ} {rest : List ℕ} (huptime : s'.uptime = s.uptime)
    (hcharge : s'.update.charge = s.update.charge)
    (htimer : ∀ x, x ≠ srch → s'.timers.timer x = s.timers.timer x) :
    ∀ x ∈ seen ++ srch :: rest, x ≠ srch → s'.timers.timer x = s.timers.timer x ∧
      s'.alarm rest x = s.alarm (srch :: rest) x := by
  intro x _ hne
  refine ⟨htimer x hne, ?_⟩
  simp only [TimerSystem.alarm, htimer x hne, huptime, hcharge, List.mem_cons, or_iff_right hne]

/-- The timer of the record has no other record. -/
theorem TimerSystem.Ok.key_iff (h : s.Ok seen todo) (hp : p ∈ seen ++ todo) :
    ∀ x ∈ seen ++ todo, (s.timers.timer x).eventFlag ≠ 0 →
      ((s.timers.timer x).key = (s.timers.timer p).key ↔ x = p) := by
  intro x hx hflag
  constructor
  · intro hk
    exact h.one x hx p hp hk hflag
  · rintro rfl
    rfl

/-- The record stays, with the alarm it shows. -/
theorem TimerSystem.Agrees.keep {srch : ℕ} {rest : List ℕ} {r : OsalTimerRec}
    {rung : List TimerKey} {free : FreeTimer} (calls : List TimerKey) (h : s.Ok seen (srch :: rest))
    (g : s.Agrees seen (srch :: rest) a) (hu : s.update = .walking u srch prev free)
    (hr : r.key = (s.timers.timer srch).key) (hflag : r.eventFlag ≠ 0)
    (hrung : rung = calls.filter fun k => k.2 ≠ 0) :
    { s with
      timers := s.timers.write srch r
      calls := calls
      update := .walking u (s.timers.next srch) srch .null }.Agrees (seen ++ [srch]) rest
      { a with
        alarms := Function.update a.alarms r.key
          (some ⟨s.uptime + max r.timeout 1, r.reloadTimeout⟩)
        rung := rung } := by
  have hsettled := g.settled
  rw [hu] at hsettled
  have hnot : srch ∉ rest := by
    have hnodup := h.list.nodup
    rw [List.nodup_middle, List.nodup_cons, List.mem_append, not_or] at hnodup
    exact hnodup.1.2
  have hmem : srch ∈ seen ++ srch :: rest := by simp
  refine ⟨g.now, hsettled, ?_, by rw [hrung, TimerSystem.events, TimerSystem.pending,
    List.append_nil]⟩
  refine g.shown.set (p := srch) _ (fun x hx => by simp [hx])
    (alarm_congr rfl (by rw [hu]; rfl) fun x hx => Timers.write_of_ne _ _ hx)
    (hr ▸ h.key_iff hmem) ?_ ?_
  · intro _ _
    refine ⟨by rw [Timers.write_self], ?_⟩
    rw [TimerSystem.alarm, if_neg hnot, Nat.sub_zero, Timers.write_self]
  · intro _
    exact ⟨hflag, by simp, by rw [Timers.write_self]⟩

/-- The record goes, and so does its alarm. -/
theorem TimerSystem.Agrees.drop {srch : ℕ} {rest : List ℕ} {r : OsalTimerRec}
    {rung : List TimerKey} {free : FreeTimer} (calls : List TimerKey) (h : s.Ok seen (srch :: rest))
    (g : s.Agrees seen (srch :: rest) a) (hu : s.update = .walking u srch prev free)
    (hr : r.key = (s.timers.timer srch).key)
    (hrung : rung = (calls.filter fun k => k.2 ≠ 0) ++
      if r.timeout = 0 ∧ r.eventFlag ≠ 0 then [r.key] else []) :
    { s with
      timers := (s.timers.write srch r).unlink srch prev
      calls := calls
      update := .walking u (s.timers.next srch) prev (.raise srch) }.Agrees seen rest
      { a with alarms := Function.update a.alarms r.key none, rung := rung } := by
  have hsettled := g.settled
  rw [hu] at hsettled
  have hmem : srch ∈ seen ++ srch :: rest := by simp
  have hnodup := h.list.nodup
  rw [List.nodup_middle, List.nodup_cons] at hnodup
  refine ⟨g.now, hsettled, ?_, ?_⟩
  · refine g.shown.set (p := srch) _ (fun x hx => by simp [hx])
      (alarm_congr rfl (by rw [hu]; rfl) fun x hx => ?_) (hr ▸ h.key_iff hmem)
      (fun hin => absurd hin hnodup.1) fun h => absurd rfl h
    rw [Timers.unlink_timer, Timers.write_of_ne _ _ hx]
  · rw [hrung, TimerSystem.events, TimerSystem.pending]
    simp only [Timers.unlink_timer, Timers.write_self]

theorem visit_of_finished {srch : ℕ} {r : OsalTimerRec}
    (hr : (s.timers.timer srch).countDown u = r) (hreloads : r.reloads = false)
    (hfinished : r.finished = true) : s.visit u srch prev = { s with
      timers := (s.timers.write srch r).unlink srch prev
      update := .walking u (s.timers.next srch) prev (.raise srch) } := by
  have hsame : r.reloaded = r := by
    rw [OsalTimerRec.reloaded, hreloads]
    rfl
  simp only [TimerSystem.visit, hr, hsame, hreloads, hfinished, if_true, Bool.false_eq_true,
    if_false]

theorem visit_of_not_finished {srch : ℕ} {r : OsalTimerRec}
    (hr : (s.timers.timer srch).countDown u = r) (hfinished : r.reloaded.finished = false) :
    s.visit u srch prev = { s with
      timers := s.timers.write srch r.reloaded
      calls := if r.reloads then s.calls ++ [r.key] else s.calls
      update := .walking u (s.timers.next srch) srch .null } := by
  simp only [TimerSystem.visit, hr, hfinished, Bool.false_eq_true, if_false]

/-- What a record does when it has been counted down: it rings for the last time, it rings and is
reloaded, it is taken out in silence, or it stays as it is. -/
theorem OsalTimerRec.cases (r : OsalTimerRec) :
    (r.timeout = 0 ∧ r.eventFlag ≠ 0 ∧ r.reloadTimeout = 0 ∧ r.reloads = false ∧
        r.finished = true) ∨
      (r.timeout = 0 ∧ r.eventFlag ≠ 0 ∧ r.reloadTimeout ≠ 0 ∧ r.reloads = true ∧
        r.reloaded = { r with timeout := r.reloadTimeout } ∧ r.reloaded.finished = false) ∨
      (r.eventFlag = 0 ∧ r.reloads = false ∧ r.finished = true) ∨
      (r.timeout ≠ 0 ∧ r.eventFlag ≠ 0 ∧ r.reloads = false ∧ r.reloaded = r ∧
        r.reloaded.finished = false) := by
  obtain ⟨timeout, flag, task, reload⟩ := r
  by_cases hflag : flag = 0
  · subst hflag
    simp [reloads, finished]
  · by_cases htimeout : timeout = 0
    · by_cases hreload : reload = 0
      · exact Or.inl ⟨htimeout, hflag, hreload, by simp [reloads, hreload],
          by simp [finished, htimeout]⟩
      · have hreloads : reloads ⟨timeout, flag, task, reload⟩ = true := by
          simpa [reloads, htimeout, hreload] using hflag
        refine Or.inr (Or.inl ⟨htimeout, hflag, hreload, hreloads, ?_, ?_⟩)
        · rw [reloaded, if_pos hreloads]
        · rw [reloaded, if_pos hreloads]
          simpa [finished, hreload] using hflag
    · have hreloads : reloads ⟨timeout, flag, task, reload⟩ = false := by
        simp [reloads, htimeout]
      have hsame : reloaded ⟨timeout, flag, task, reload⟩ = ⟨timeout, flag, task, reload⟩ := by
        rw [reloaded, hreloads]
        rfl
      refine Or.inr (Or.inr (Or.inr ⟨htimeout, hflag, hreloads, hsame, ?_⟩))
      rw [hsame]
      simpa [finished, htimeout] using hflag

/-- **One turn of the loop**: the record is counted down, and its alarm rings when it is due. -/
theorem visit_step {srch : ℕ} (h : s.Ok seen todo) (g : s.Agrees seen todo a)
    (hu : s.update = .walking u srch prev .null) (hsrch : srch ≠ 0) :
    ∃ seen' rest a', todo = srch :: rest ∧ (s.visit u srch prev).Ok seen' rest ∧
      clock.exec a (s.ops .visit) = some a' ∧ (s.visit u srch prev).Agrees seen' rest a' := by
  obtain ⟨rest, rfl, hpos, hprev, hnext⟩ := walking_cons h hu hsrch
  have hrung : a.rung = s.calls.filter (fun k => k.2 ≠ 0) := by
    rw [g.rung, TimerSystem.pending, hu, List.append_nil]
    rfl
  obtain ⟨r, hr⟩ : ∃ r, (s.timers.timer srch).countDown u = r := ⟨_, rfl⟩
  have hkey : r.key = (s.timers.timer srch).key := by
    rw [← hr]
    rfl
  have hops : s.ops .visit = if r.timeout = 0 ∧ r.eventFlag ≠ 0 then [.ring r.key] else [] := by
    rw [TimerSystem.ops, hu]
    simp only [if_neg hsrch, hr]
  -- The alarm that the record shows.
  obtain ⟨d, hd, hshown⟩ : ∃ d, s.uptime + max (s.timers.timer srch).timeout 1 - u = d ∧
      (r.eventFlag ≠ 0 → a.alarms r.key = some ⟨d, r.reloadTimeout⟩) := by
    refine ⟨_, rfl, fun hflag => ?_⟩
    have hflag' : (s.timers.timer srch).eventFlag ≠ 0 := by rwa [← flag_eq hkey]
    rw [hkey, g.shown.alarm srch (by simp) hflag', TimerSystem.alarm, if_pos List.mem_cons_self, hu,
      ← hr]
    rfl
  have hcharge : a.settled + u = s.uptime := by
    have hsettled := g.settled
    rwa [hu] at hsettled
  have htimeout : r.timeout = (s.timers.timer srch).timeout - u := by
    rw [← hr, OsalTimerRec.countDown]
    dsimp only
    split
    · omega
    · rfl
  have hring : r.timeout = 0 → r.eventFlag ≠ 0 → clock.exec a (s.ops .visit) = some { a with
      alarms := Function.update a.alarms r.key (Alarm.next ⟨d, r.reloadTimeout⟩ a.now)
      rung := a.rung ++ [r.key] } := by
    intro hzero hflag
    rw [hops, if_pos ⟨hzero, hflag⟩, clock.exec_cons_eq_some]
    refine ⟨_, Option.bind_eq_some_iff.mpr ⟨_, hshown hflag, Machine.when_eq_some.mpr ⟨?_, rfl⟩⟩,
      rfl⟩
    rw [g.now]
    dsimp only
    omega
  rcases r.cases with ⟨hzero, hflag, hreload, hreloads, hfinished⟩ |
    ⟨hzero, hflag, hreload, hreloads, hreloaded, hfinished⟩ | ⟨hflag, hreloads, hfinished⟩ |
    ⟨hzero, hflag, hreloads, hreloaded, hfinished⟩
  · -- It rings for the last time.
    have hexec := hring hzero hflag
    rw [Alarm.next, if_pos hreload] at hexec
    rw [visit_of_finished hr hreloads hfinished]
    refine ⟨seen, rest, _, rfl, h.drop hpos hprev hnext hkey, hexec, g.drop s.calls h hu hkey ?_⟩
    rw [hrung, if_pos ⟨hzero, hflag⟩]
  · -- It rings and is reloaded.
    have hexec := hring hzero hflag
    rw [Alarm.next, if_neg hreload] at hexec
    rw [visit_of_not_finished hr hfinished, hreloaded, if_pos hreloads]
    have hsingle : [r.key].filter (fun k => k.2 ≠ 0) = [r.key] := by
      simpa [OsalTimerRec.key] using hflag
    have hagrees := g.keep (r := { r with timeout := r.reloadTimeout }) (s.calls ++ [r.key]) h hu
      hkey hflag rfl
    have hmax : a.now + r.reloadTimeout = s.uptime + max r.reloadTimeout 1 := by
      rw [g.now]
      omega
    rw [List.filter_append, hsingle, ← hrung] at hagrees
    refine ⟨seen ++ [srch], rest, _, rfl, h.keep hpos hnext hkey, hexec, ?_⟩
    dsimp only
    rw [hmax]
    exact hagrees
  · -- It was stopped, and is taken out.
    have hnone : a.alarms r.key = none := by
      rw [OsalTimerRec.key, hflag]
      exact g.shown.event_zero _
    rw [visit_of_finished hr hreloads hfinished]
    have hagrees := g.drop s.calls h hu hkey rfl
    rw [if_neg (fun hring => hring.2 hflag), List.append_nil, ← hrung, ← hnone,
      Function.update_eq_self] at hagrees
    refine ⟨seen, rest, a, rfl, h.drop hpos hprev hnext hkey, ?_, hagrees⟩
    rw [hops, if_neg (fun hring => hring.2 hflag)]
    rfl
  · -- It is not due.
    rw [visit_of_not_finished hr hfinished, hreloaded, hreloads, if_neg Bool.false_ne_true]
    have hagrees := g.keep s.calls h hu hkey hflag rfl
    have hdead : s.uptime + max r.timeout 1 = d := by omega
    rw [hdead, ← hrung, ← hshown hflag, Function.update_eq_self] at hagrees
    refine ⟨seen ++ [srch], rest, a, rfl, h.keep hpos hnext hkey, ?_, hagrees⟩
    rw [hops, if_neg (fun hring => hzero hring.1)]
    rfl

theorem TimerSystem.Agrees.shown_of {s' : TimerSystem} (g : s.Agrees seen todo a)
    (huptime : s'.uptime = s.uptime) (hcharge : s'.update.charge = s.update.charge)
    (htimer : s'.timers.timer = s.timers.timer) :
    Shown s'.timers.timer (s'.alarm todo) (seen ++ todo) a.alarms := by
  have halarm : s'.alarm todo = s.alarm todo := by
    funext x
    rw [TimerSystem.alarm, TimerSystem.alarm, huptime, hcharge, htimer]
  rw [halarm, htimer]
  exact g.shown

/-- **At the end of the list** every alarm that is due has rung. -/
theorem settle_step (h : s.Ok seen []) (g : s.Agrees seen [] a) (hpending : s.pending = []) :
    { s with update := .idle }.Ok seen [] ∧ ∃ a', clock.exec a [.settle] = some a' ∧
      { s with update := .idle }.Agrees seen [] a' := by
  classical
  have hsettled : a.Settled := by
    intro k alarm hk
    obtain ⟨hne, p, hp, rfl⟩ := g.shown.only k (by rw [hk]; exact Option.some_ne_none _)
    have halarm := g.shown.alarm p hp hne
    rw [hk, Option.some.injEq] at halarm
    rw [halarm, g.now, TimerSystem.alarm, if_neg List.not_mem_nil]
    dsimp only
    omega
  refine ⟨⟨h.list, h.live, h.place, h.one, h.clock, rfl, fun p hp => by cases hp⟩,
    { a with settled := a.now }, ?_, ⟨g.now, g.now, ?_, ?_⟩⟩
  · rw [clock.exec_cons_eq_some]
    exact ⟨_, Machine.when_eq_some.mpr ⟨hsettled, rfl⟩, rfl⟩
  · have hsame : { s with update := .idle }.alarm [] = s.alarm [] := by
      funext x
      simp [TimerSystem.alarm]
    rw [hsame]
    exact g.shown
  · rw [g.rung, hpending]
    rfl

/-- **The system clock is advanced**, and all records are still to be counted down. -/
theorem update_step (h : s.Ok seen todo) (g : s.Agrees seen todo a) (hu : s.update = .idle)
    (hpos : 0 < u) :
    { s with
      timers := { s.timers with systemClock := (s.timers.systemClock + u) % 2 ^ 32 }
      uptime := s.uptime + u
      update := .advanced u }.Ok [] seen ∧
      ∃ a', clock.exec a [.pass u] = some a' ∧ { s with
        timers := { s.timers with systemClock := (s.timers.systemClock + u) % 2 ^ 32 }
        uptime := s.uptime + u
        update := .advanced u }.Agrees [] seen a' := by
  have hpc := h.pc
  rw [hu] at hpc
  obtain rfl : todo = [] := hpc
  have hsettled : a.settled = s.uptime := by
    have hcharge := g.settled
    rwa [hu] at hcharge
  have hlist := h.list
  have hlive := h.live
  have hone := h.one
  have hshown := g.shown
  rw [List.append_nil] at hlist hlive hone hshown
  refine ⟨⟨hlist, hlive, h.place, hone, ?_, ⟨hpos, rfl⟩, fun p hp => by cases hp⟩,
    { a with now := a.now + u }, ?_, ⟨?_, ?_, ⟨fun p hp hflag => ?_, hshown.only⟩, ?_⟩⟩
  · dsimp only
    rw [h.clock, Nat.mod_add_mod]
  · rw [clock.exec_cons_eq_some]
    exact ⟨_, Machine.when_eq_some.mpr ⟨by rw [hsettled, g.now], rfl⟩, rfl⟩
  · dsimp only
    rw [g.now]
  · dsimp only
    rw [hsettled]
    rfl
  · dsimp only at hflag ⊢
    rw [hshown.alarm p hp hflag, TimerSystem.alarm, TimerSystem.alarm, if_neg List.not_mem_nil,
      if_pos (by simpa using hp)]
    dsimp only [UpdatePc.charge]
    congr 2
    omega
  · rw [g.rung, TimerSystem.pending, hu]
    rfl

/-- **The walk begins** at the head of the list. -/
theorem enter_step (h : s.Ok seen todo) (g : s.Agrees seen todo a) (hu : s.update = .advanced u)
    (hhead : s.timers.timerHead ≠ 0) :
    { s with update := .walking u s.timers.timerHead 0 .null }.Ok seen todo ∧
      { s with update := .walking u s.timers.timerHead 0 .null }.Agrees seen todo a := by
  have hpc := h.pc
  rw [hu] at hpc
  obtain ⟨hpos, rfl⟩ := hpc
  have hsettled := g.settled
  rw [hu] at hsettled
  refine ⟨⟨h.list, h.live, h.place, h.one, h.clock, ⟨hpos, ?_, fun _ => rfl⟩,
    fun p hp => by cases hp⟩, ⟨g.now, hsettled, ?_, ?_⟩⟩
  · cases todo with
    | nil => exact absurd (isList_nil.mp h.list) hhead
    | cons x todo => exact IsList.head_eq h.list
  · exact g.shown_of rfl (by rw [hu]; rfl) rfl
  · rw [g.rung, TimerSystem.pending, hu]
    rfl

/-- The event of a record that was taken out is set. -/
theorem raise_step {srch : ℕ} (h : s.Ok seen todo) (g : s.Agrees seen todo a)
    (hu : s.update = .walking u srch prev (.raise p)) :
    { s with
      calls := if (s.timers.timer p).timeout = 0 then s.calls ++ [(s.timers.timer p).key]
        else s.calls
      update := .walking u srch prev (.free p) }.Ok seen todo ∧
    { s with
      calls := if (s.timers.timer p).timeout = 0 then s.calls ++ [(s.timers.timer p).key]
        else s.calls
      update := .walking u srch prev (.free p) }.Agrees seen todo a := by
  have hpc := h.pc
  rw [hu] at hpc
  have hsettled := g.settled
  rw [hu] at hsettled
  have hheld := h.held p (by rw [hu]; rfl)
  refine ⟨⟨h.list, h.live, h.place, h.one, h.clock, hpc, ?_⟩, ⟨g.now, hsettled, ?_, ?_⟩⟩
  · rintro x ⟨⟩
    exact hheld
  · exact g.shown_of rfl (by rw [hu]; rfl) rfl
  · rw [g.rung, TimerSystem.pending, TimerSystem.pending, hu, TimerSystem.events,
      TimerSystem.events]
    dsimp only
    rw [List.append_nil]
    by_cases hzero : (s.timers.timer p).timeout = 0
    · rw [if_pos hzero, List.filter_append]
      congr 1
      by_cases hflag : (s.timers.timer p).eventFlag = 0
      · have hkey : ¬ (s.timers.timer p).key.2 ≠ 0 := fun hne => hne hflag
        rw [if_neg (fun h => h.2 hflag), List.filter_cons_of_neg (by rwa [decide_eq_true_iff]),
          List.filter_nil]
      · have hkey : (s.timers.timer p).key.2 ≠ 0 := hflag
        rw [if_pos ⟨hzero, hflag⟩, List.filter_cons_of_pos (by rwa [decide_eq_true_iff]),
          List.filter_nil]
    · rw [if_neg hzero, if_neg (fun h => hzero h.1), List.append_nil]

/-- Its memory is freed. -/
theorem free_step {srch : ℕ} (h : s.Ok seen todo) (g : s.Agrees seen todo a)
    (hu : s.update = .walking u srch prev (.free p)) :
    { s with
      live := Function.update s.live p false
      update := .walking u srch prev .null }.Ok seen todo ∧
    { s with
      live := Function.update s.live p false
      update := .walking u srch prev .null }.Agrees seen todo a := by
  have hpc := h.pc
  rw [hu] at hpc
  have hsettled := g.settled
  rw [hu] at hsettled
  have hheld := h.held p (by rw [hu]; rfl)
  refine ⟨⟨h.list, fun x hx => ?_, fun x hx => ?_, h.one, h.clock, hpc, fun x hx => by cases hx⟩,
    ⟨g.now, hsettled, ?_, ?_⟩⟩
  · have hne : x ≠ p := fun hxp => hheld.2 (hxp ▸ hx)
    dsimp only
    rw [Function.update_of_ne hne]
    exact h.live x hx
  · by_cases hxp : x = p
    · rw [hxp] at hx
      simp only [Function.update_self] at hx
      cases hx
    · simp only [Function.update_of_ne hxp] at hx
      exact h.place x hx
  · exact g.shown_of rfl (by rw [hu]; rfl) rfl
  · rw [g.rung, TimerSystem.pending, TimerSystem.pending, hu]
    rfl

end Update

/-! ## Runs -/

/-- The records are in order, and they are the alarms of the clock. -/
def TimerSystem.Ticks (s : TimerSystem) (a : State TimerKey) : Prop :=
  ∃ seen todo, s.Ok seen todo ∧ s.Agrees seen todo a

section Runs

variable {s s' : TimerSystem} {a : State TimerKey}

/-- A step over the list. -/
theorem visit_ticks (hR : s.Ticks a) (hstep : timerSystem.step s .visit = some s') :
    ∃ a', clock.exec a (s.ops .visit) = some a' ∧ s'.Ticks a' := by
  obtain ⟨seen, todo, h, g⟩ := hR
  dsimp only [timerSystem] at hstep
  split at hstep
  next u srch prev hu =>
      by_cases hsrch : srch = 0
      · rw [if_neg (not_not.mpr hsrch), Option.some.injEq] at hstep
        have hpc := h.pc
        rw [hu] at hpc
        have htodo : todo = [] := by
          cases todo with
          | nil => rfl
          | cons x todo =>
              have hzero : x = 0 := hpc.2.1.symm.trans hsrch
              exact absurd (by simp [hzero]) h.list.zero_notMem
        subst htodo hstep
        have hpending : s.pending = [] := by rw [TimerSystem.pending, hu]
        obtain ⟨hok, a', hexec, hagrees⟩ := settle_step h g hpending
        have hops : s.ops .visit = [.settle] := by
          rw [TimerSystem.ops, hu]
          simp only [if_pos hsrch]
        rw [hops]
        exact ⟨a', hexec, seen, [], hok, hagrees⟩
      · rw [if_pos hsrch, Option.some.injEq] at hstep
        subst hstep
        obtain ⟨seen', rest, a', -, hok, hexec, hagrees⟩ := visit_step h g hu hsrch
        exact ⟨a', hexec, seen', rest, hok, hagrees⟩
  next => cases hstep

/-- **Every step keeps the records in order**, and the clock follows it. -/
theorem timers_step {act : TimerAction} (hR : s.Ticks a)
    (hstep : timerSystem.step s act = some s') :
    ∃ a', clock.exec a (s.ops act) = some a' ∧ s'.Ticks a' := by
  obtain ⟨seen, todo, h, g⟩ := id hR
  cases act with
  | start reloads taskId eventId timeout newTimer =>
      dsimp only [timerSystem] at hstep
      split at hstep
      next hnew =>
          obtain ⟨r, seen', todo', a', hstart, hok, hexec, hagrees, -⟩ :=
            start_step h g reloads taskId eventId timeout hnew
          rw [hstart, Option.map_some, Option.some.injEq] at hstep
          subst hstep
          exact ⟨a', hexec, seen', todo', hok, hagrees⟩
      next => cases hstep
  | stop taskId eventId =>
      obtain ⟨r, a', hstop, hok, hexec, hagrees⟩ := stop_step h g taskId eventId
      dsimp only [timerSystem] at hstep
      rw [hstop, Option.map_some, Option.some.injEq] at hstep
      subst hstep
      exact ⟨a', hexec, seen, todo, hok, hagrees⟩
  | update u =>
      dsimp only [timerSystem] at hstep
      split at hstep
      next hu =>
          obtain ⟨hpos, rfl⟩ := Machine.when_eq_some.mp hstep
          obtain ⟨hok, a', hexec, hagrees⟩ := update_step h g hu hpos
          exact ⟨a', hexec, [], seen, hok, hagrees⟩
      next => cases hstep
  | enter =>
      dsimp only [timerSystem] at hstep
      split at hstep
      next u hu =>
          rw [Option.some.injEq] at hstep
          subst hstep
          by_cases hhead : s.timers.timerHead = 0
          · have hpc := h.pc
            rw [hu] at hpc
            obtain ⟨-, rfl⟩ := hpc
            obtain rfl : todo = [] := by
              cases todo with
              | nil => rfl
              | cons x todo =>
                  exact absurd hhead ((IsList.head_eq h.list).trans_ne (h.list.ne_zero (by simp)))
            have hpending : s.pending = [] := by rw [TimerSystem.pending, hu]
            obtain ⟨hok, a', hexec, hagrees⟩ := settle_step h g hpending
            rw [TimerSystem.ops, if_pos hhead, if_neg (not_not.mpr hhead)]
            exact ⟨a', hexec, [], [], hok, hagrees⟩
          · obtain ⟨hok, hagrees⟩ := enter_step h g hu hhead
            rw [TimerSystem.ops, if_neg hhead, if_pos hhead]
            exact ⟨a, rfl, seen, todo, hok, hagrees⟩
      next => cases hstep
  | visit => exact visit_ticks hR hstep
  | raise =>
      dsimp only [timerSystem] at hstep
      split at hstep
      next u srch prev p hu =>
          rw [Option.some.injEq] at hstep
          subst hstep
          obtain ⟨hok, hagrees⟩ := raise_step h g hu
          exact ⟨a, rfl, seen, todo, hok, hagrees⟩
      next => cases hstep
  | free =>
      dsimp only [timerSystem] at hstep
      split at hstep
      next u srch prev p hu =>
          rw [Option.some.injEq] at hstep
          subst hstep
          obtain ⟨hok, hagrees⟩ := free_step h g hu
          exact ⟨a, rfl, seen, todo, hok, hagrees⟩
      next => cases hstep

theorem ticks_init : timerSystem.init.Ticks clock.init := by
  refine ⟨[], [], ⟨isList_nil.mpr rfl, ?_, ?_, ?_, rfl, rfl, ?_⟩, rfl, rfl, ⟨?_, ?_⟩, rfl⟩
  · exact fun p hp => absurd hp List.not_mem_nil
  · rintro p ⟨⟩
  · exact fun p hp => absurd hp List.not_mem_nil
  · rintro p ⟨⟩
  · exact fun p hp => absurd hp List.not_mem_nil
  · exact fun k hk => absurd rfl hk

/-- From any state that ticks, a run follows the clock. -/
theorem timers_exec {as : List TimerAction} (hR : s.Ticks a)
    (hex : timerSystem.exec s as = some s') :
    ∃ a', clock.exec a (timerSystem.trace TimerSystem.ops s as) = some a' ∧ s'.Ticks a' :=
  Machine.exec_simulates (G := fun _ _ => True) (fun _ _ _ _ hR _ hstep => timers_step hR hstep) hR
    (Machine.along_of_forall (fun _ _ => trivial) s) hex

end Runs

end CourseDesign.Osal
