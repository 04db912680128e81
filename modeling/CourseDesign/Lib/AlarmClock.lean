import CourseDesign.Lib.Machine
import Mathlib.Algebra.Order.Ring.Nat
import Mathlib.Logic.Function.Basic
import Mathlib.Tactic.Ring

/-!
# An alarm clock

A clock with an alarm for every key that wants one.  An alarm rings once, or again and again.  Time
passes in strides: an alarm rings at its deadline or later, and after a stride the clock is settled:
every alarm that is due has rung.  The delay of an alarm that is started in the middle of a stride
begins at the one or the other end of that stride.

* `clock` — starting and cancelling alarms, the strides of the time, and the rings.
* `Ok`, `ok_preserves` — no deadline lies before the time the clock was last settled.
* `rings_once` — an alarm that is left alone rings once, in the stride that reaches its deadline.
* `rings_periodically` — one that reloads rings again after every period, and each ring is late by
  less than a stride.
-/

namespace AlarmClock

structure Alarm where
  deadline : ℕ
  /-- The time from a ring to the next, or 0 for an alarm that rings once. -/
  reload : ℕ

/-- The time, when the clock was last settled, the alarms, and what has rung so far. -/
structure State (κ : Type*) where
  now : ℕ
  settled : ℕ
  alarms : κ → Option Alarm
  rung : List κ

/-- What happens to the clock.  An alarm that is running already keeps its reload if none is
named. -/
inductive Op (κ : Type*) where
  /-- The stride in progress is `counted` if the alarm is still counted down in it. -/
  | start (k : κ) (delay : ℕ) (counted : Bool) (reload : Option ℕ)
  | cancel (k : κ)
  | pass (stride : ℕ)
  | ring (k : κ)
  | settle

/-- The operation starts the alarm of `k`. -/
def Op.Starts {κ : Type*} (k : κ) : Op κ → Prop
  | .start j _ _ _ => j = k
  | _ => False

/-- The operation starts or cancels the alarm of `k`. -/
def Op.Sets {κ : Type*} (k : κ) : Op κ → Prop
  | .start j _ _ _ => j = k
  | .cancel j => j = k
  | _ => False

/-- No stride is longer than `n`. -/
def Op.StrideLe {κ : Type*} (n : ℕ) : Op κ → Prop
  | .pass stride => stride ≤ n
  | _ => True

variable {κ : Type*} [DecidableEq κ]

/-- How often `k` has rung. -/
def times (k : κ) (rung : List κ) : ℕ := rung.countP fun j => j = k

theorem times_concat (k j : κ) (rung : List κ) :
    times k (rung ++ [j]) = times k rung + if j = k then 1 else 0 := by
  rw [times, times, List.countP_append, List.countP_singleton]
  simp only [decide_eq_true_eq]

/-- No alarm is due. -/
def State.Settled (s : State κ) : Prop := ∀ k a, s.alarms k = some a → s.now < a.deadline

/-- The time at which the delay of an alarm begins that is started now.  If the stride in progress
is counted, that is where the stride began, before the alarm was started. -/
def State.origin (s : State κ) (counted : Bool) : ℕ := if counted then s.settled else s.now

/-- The reload of the alarm of `k`, if it is running. -/
def State.reload (s : State κ) (k : κ) : ℕ := (s.alarms k).elim 0 Alarm.reload

/-- What is left of an alarm that rings at the time `now`. -/
def Alarm.next (a : Alarm) (now : ℕ) : Option Alarm :=
  if a.reload = 0 then none else some ⟨now + a.reload, a.reload⟩

open Classical in
/-- The clock. -/
noncomputable def clock : Machine (State κ) (Op κ) where
  init := ⟨0, 0, fun _ => none, []⟩
  step s
    | .start k delay counted reload => Machine.when (0 < delay)
        { s with
          alarms := Function.update s.alarms k
            (some ⟨s.origin counted + delay, reload.getD (s.reload k)⟩) }
    | .cancel k => some { s with alarms := Function.update s.alarms k none }
    | .pass stride => Machine.when (s.settled = s.now) { s with now := s.now + stride }
    | .ring k => (s.alarms k).bind fun a => Machine.when (a.deadline ≤ s.now)
        { s with
          alarms := Function.update s.alarms k (a.next s.now)
          rung := s.rung ++ [k] }
    | .settle => Machine.when s.Settled { s with settled := s.now }

theorem clock_ring {s t : State κ} {k : κ} (h : clock.step s (.ring k) = some t) :
    ∃ a, s.alarms k = some a ∧ a.deadline ≤ s.now ∧
      t = { s with
        alarms := Function.update s.alarms k (a.next s.now)
        rung := s.rung ++ [k] } := by
  obtain ⟨a, ha, hstep⟩ := Option.bind_eq_some_iff.mp h
  obtain ⟨hdue, rfl⟩ := Machine.when_eq_some.mp hstep
  exact ⟨a, ha, hdue, rfl⟩

theorem clock_settle {s t : State κ} (h : clock.step s .settle = some t) :
    s.Settled ∧ t = { s with settled := s.now } := by
  classical
  obtain ⟨hsettled, rfl⟩ := Machine.when_eq_some.mp h
  exact ⟨hsettled, rfl⟩

/-! ## Deadlines lie ahead -/

/-- The clock was settled in the past, and no deadline is older. -/
structure Ok (s : State κ) : Prop where
  settled_le : s.settled ≤ s.now
  lt : ∀ k a, s.alarms k = some a → s.settled < a.deadline

/-- Setting one alarm, its deadline ahead. -/
theorem Ok.update {s : State κ} (h : Ok s) (k : κ) (rung : List κ) {alarm : Option Alarm}
    (halarm : ∀ a, alarm = some a → s.settled < a.deadline) :
    Ok { s with alarms := Function.update s.alarms k alarm, rung := rung } := by
  refine ⟨h.settled_le, fun j a ha => ?_⟩
  by_cases hj : j = k
  · rw [hj] at ha
    dsimp only at ha
    rw [Function.update_self] at ha
    exact halarm a ha
  · dsimp only at ha
    rw [Function.update_of_ne hj] at ha
    exact h.lt j a ha

omit [DecidableEq κ] in
theorem settled_le_origin {s : State κ} (h : s.settled ≤ s.now) (counted : Bool) :
    s.settled ≤ s.origin counted := by
  cases counted with
  | false => exact h
  | true => exact Nat.le_refl _

theorem ok_preserves : (clock (κ := κ)).Preserves (fun _ _ => True) Ok := by
  intro s op t h _ hstep
  have hle := h.settled_le
  cases op with
  | start k delay counted reload =>
      obtain ⟨hdelay, rfl⟩ := Machine.when_eq_some.mp hstep
      refine h.update k s.rung ?_
      rintro a ⟨⟩
      have horigin := settled_le_origin hle counted
      dsimp only
      omega
  | cancel k =>
      obtain rfl := Option.some.inj hstep
      refine h.update k s.rung ?_
      intro a ha
      cases ha
  | pass stride =>
      obtain ⟨-, rfl⟩ := Machine.when_eq_some.mp hstep
      exact ⟨Nat.le_add_right_of_le hle, h.lt⟩
  | ring k =>
      obtain ⟨a, -, hdue, rfl⟩ := clock_ring hstep
      refine h.update k _ fun b hb => ?_
      rw [Alarm.next] at hb
      split at hb
      · cases hb
      · obtain rfl := Option.some.inj hb
        dsimp only
        omega
  | settle =>
      obtain ⟨hsettled, rfl⟩ := clock_settle hstep
      exact ⟨Nat.le_refl _, hsettled⟩

/-! ## When an alarm rings -/

section Rings

variable {s t : State κ} {k : κ} {a : Alarm} {op : Op κ} {ops : List (Op κ)}

/-- **What a step does to an alarm that it does not set**: nothing, or the alarm is due and
rings. -/
theorem step_alarm (hop : ¬ op.Sets k) (h : clock.step s op = some t) (hs : s.alarms k = some a) :
    (t.alarms k = some a ∧ times k t.rung = times k s.rung) ∨
      (t.alarms k = a.next s.now ∧ times k t.rung = times k s.rung + 1 ∧ a.deadline ≤ s.now ∧
        t.now = s.now ∧ t.settled = s.settled) := by
  cases op with
  | start j delay counted reload =>
      obtain ⟨-, rfl⟩ := Machine.when_eq_some.mp h
      exact Or.inl ⟨by rw [← hs]; exact Function.update_of_ne (Ne.symm hop) _ _, rfl⟩
  | cancel j =>
      obtain rfl := Option.some.inj h
      exact Or.inl ⟨by rw [← hs]; exact Function.update_of_ne (Ne.symm hop) _ _, rfl⟩
  | pass stride =>
      obtain ⟨-, rfl⟩ := Machine.when_eq_some.mp h
      exact Or.inl ⟨hs, rfl⟩
  | ring j =>
      obtain ⟨b, hb, hdue, rfl⟩ := clock_ring h
      by_cases hj : j = k
      · subst hj
        obtain rfl : a = b := Option.some.inj (hs.symm.trans hb)
        refine Or.inr ⟨Function.update_self _ _ _, ?_, hdue, rfl, rfl⟩
        rw [times_concat, if_pos rfl]
      · refine Or.inl ⟨?_, ?_⟩
        · rw [← hs]
          exact Function.update_of_ne (Ne.symm hj) _ _
        · rw [times_concat, if_neg hj, Nat.add_zero]
  | settle =>
      obtain ⟨-, rfl⟩ := clock_settle h
      exact Or.inl ⟨hs, rfl⟩

omit [DecidableEq κ] in
theorem Op.Starts.sets (h : op.Starts k) : op.Sets k := by
  cases op with
  | start j delay counted reload => exact h
  | cancel j => cases h
  | pass stride => cases h
  | ring j => cases h
  | settle => cases h

/-- An alarm that is not running does not ring. -/
theorem step_no_alarm (hop : ¬ op.Starts k) (h : clock.step s op = some t)
    (hs : s.alarms k = none) :
    t.alarms k = none ∧ times k t.rung = times k s.rung := by
  cases op with
  | start j delay counted reload =>
      obtain ⟨-, rfl⟩ := Machine.when_eq_some.mp h
      exact ⟨by rw [← hs]; exact Function.update_of_ne (Ne.symm hop) _ _, rfl⟩
  | cancel j =>
      obtain rfl := Option.some.inj h
      refine ⟨?_, rfl⟩
      by_cases hj : k = j
      · rw [hj]
        exact Function.update_self _ _ _
      · rw [← hs]
        exact Function.update_of_ne hj _ _
  | pass stride =>
      obtain ⟨-, rfl⟩ := Machine.when_eq_some.mp h
      exact ⟨hs, rfl⟩
  | ring j =>
      obtain ⟨b, hb, -, rfl⟩ := clock_ring h
      have hj : j ≠ k := by
        rintro rfl
        rw [hs] at hb
        cases hb
      refine ⟨?_, ?_⟩
      · rw [← hs]
        exact Function.update_of_ne hj.symm _ _
      · rw [times_concat, if_neg hj, Nat.add_zero]
  | settle =>
      obtain ⟨-, rfl⟩ := clock_settle h
      exact ⟨hs, rfl⟩

theorem step_now_le (h : clock.step s op = some t) : s.now ≤ t.now := by
  cases op with
  | start j delay counted reload =>
      obtain ⟨-, rfl⟩ := Machine.when_eq_some.mp h
      exact Nat.le_refl _
  | cancel j =>
      obtain rfl := Option.some.inj h
      exact Nat.le_refl _
  | pass stride =>
      obtain ⟨-, rfl⟩ := Machine.when_eq_some.mp h
      exact Nat.le_add_right _ _
  | ring j =>
      obtain ⟨a, -, -, rfl⟩ := clock_ring h
      exact Nat.le_refl _
  | settle =>
      obtain ⟨-, rfl⟩ := clock_settle h
      exact Nat.le_refl _

/-- An alarm that nobody starts does not ring. -/
theorem rings_never (hops : ∀ op ∈ ops, ¬ op.Starts k) (hs : s.alarms k = none)
    (hex : clock.exec s ops = some t) : times k t.rung = times k s.rung := by
  induction ops generalizing s with
  | nil =>
      obtain rfl : s = t := by simpa using hex
      rfl
  | cons op ops ih =>
      obtain ⟨u, hu, hrest⟩ := clock.exec_cons_eq_some.mp hex
      obtain ⟨hnone, hcount⟩ := step_no_alarm (hops op (by simp)) hu hs
      rw [ih (fun o ho => hops o (List.mem_cons_of_mem _ ho)) hnone hrest, hcount]

theorem exec_now_le (hex : clock.exec s ops = some t) : s.now ≤ t.now := by
  induction ops generalizing s with
  | nil =>
      obtain rfl : s = t := by simpa using hex
      exact Nat.le_refl _
  | cons op ops ih =>
      obtain ⟨u, hu, hrest⟩ := clock.exec_cons_eq_some.mp hex
      exact (step_now_le hu).trans (ih hrest)

/-- **An alarm that rings once.**  It is running still, or it has rung and its deadline is past. -/
theorem once (hops : ∀ op ∈ ops, ¬ op.Sets k) (hs : s.alarms k = some a) (ha : a.reload = 0)
    (hex : clock.exec s ops = some t) :
    (t.alarms k = some a ∧ times k t.rung = times k s.rung) ∨
      (times k t.rung = times k s.rung + 1 ∧ a.deadline ≤ t.now) := by
  induction ops generalizing s with
  | nil =>
      obtain rfl : s = t := by simpa using hex
      exact Or.inl ⟨hs, rfl⟩
  | cons op ops ih =>
      obtain ⟨u, hu, hrest⟩ := clock.exec_cons_eq_some.mp hex
      have hops' : ∀ o ∈ ops, ¬ o.Sets k := fun o ho => hops o (List.mem_cons_of_mem _ ho)
      rcases step_alarm (hops op (by simp)) hu hs with
        ⟨hsame, hcount⟩ | ⟨hnext, hcount, hdue, hnow, -⟩
      · rw [← hcount]
        exact ih hops' hsame hrest
      · rw [Alarm.next, if_pos ha] at hnext
        refine Or.inr ⟨?_, ?_⟩
        · rw [rings_never (fun o ho h => hops' o ho h.sets) hnext hrest, hcount]
        · have hle := exec_now_le hrest
          omega

/-- **An alarm that is left alone rings once**, in the stride that reaches its deadline. -/
theorem rings_once (hops : ∀ op ∈ ops, ¬ op.Sets k) (hok : Ok s) (hs : s.alarms k = some a)
    (ha : a.reload = 0) (hex : clock.exec s ops = some t) (ht : t.settled = t.now) :
    times k t.rung = times k s.rung + if a.deadline ≤ t.now then 1 else 0 := by
  have hokt : Ok t :=
    Machine.exec_of_preserves ok_preserves hok (Machine.along_of_forall (fun _ _ => trivial) s) hex
  rcases once hops hs ha hex with ⟨halarm, hcount⟩ | ⟨hcount, hdue⟩
  · have hlt := hokt.lt k a halarm
    rw [hcount, if_neg (by omega), Nat.add_zero]
  · rw [hcount, if_pos hdue]

/-- The clock is at most a stride ahead of the time it was settled. -/
def Within (n : ℕ) (s : State κ) : Prop := s.now ≤ s.settled + n

theorem within_preserves (n : ℕ) :
    (clock (κ := κ)).Preserves (fun _ op => op.StrideLe n) (Within n) := by
  intro s op t h hop hstep
  cases op with
  | start k delay counted reload =>
      obtain ⟨-, rfl⟩ := Machine.when_eq_some.mp hstep
      exact h
  | cancel k =>
      obtain rfl := Option.some.inj hstep
      exact h
  | pass stride =>
      obtain ⟨hnow, rfl⟩ := Machine.when_eq_some.mp hstep
      rw [Within, hnow]
      exact Nat.add_le_add_left hop _
  | ring k =>
      obtain ⟨a, -, -, rfl⟩ := clock_ring hstep
      exact h
  | settle =>
      obtain ⟨-, rfl⟩ := clock_settle hstep
      exact Nat.le_add_right _ _

/-- **An alarm that reloads.**  After `m` more rings its deadline has moved by `m` periods, and by
what these rings were late: each less than a stride, which is at most `slack + 1`. -/
theorem periodic {slack : ℕ} (hops : ∀ op ∈ ops, ¬ op.Sets k ∧ op.StrideLe (slack + 1)) (hok : Ok s)
    (hwithin : Within (slack + 1) s) (hs : s.alarms k = some a) (ha : 0 < a.reload)
    (hex : clock.exec s ops = some t) : ∃ m b, times k t.rung = times k s.rung + m ∧
      t.alarms k = some b ∧ b.reload = a.reload ∧ a.deadline + m * a.reload ≤ b.deadline ∧
      b.deadline ≤ a.deadline + m * (a.reload + slack) ∧
      (0 < m → b.deadline ≤ t.now + a.reload) := by
  induction ops generalizing s a with
  | nil =>
      obtain rfl : s = t := by simpa using hex
      exact ⟨0, a, rfl, hs, rfl, by simp, by simp, fun h => absurd h (Nat.lt_irrefl 0)⟩
  | cons op ops ih =>
      obtain ⟨u, hu, hrest⟩ := clock.exec_cons_eq_some.mp hex
      obtain ⟨hop, hstride⟩ := hops op (by simp)
      have hops' : ∀ o ∈ ops, ¬ o.Sets k ∧ o.StrideLe (slack + 1) :=
        fun o ho => hops o (List.mem_cons_of_mem _ ho)
      have hoku : Ok u := ok_preserves hok trivial hu
      have hwithinu : Within (slack + 1) u := within_preserves (slack + 1) hwithin hstride hu
      rcases step_alarm hop hu hs with ⟨hsame, hcount⟩ | ⟨hnext, hcount, hdue, hnow, -⟩
      · rw [← hcount]
        exact ih hops' hoku hwithinu hsame ha hrest
      · rw [Alarm.next, if_neg (by omega)] at hnext
        obtain ⟨m, b, hm, hb, hreload, hlow, hhigh, hlast⟩ := ih hops' hoku hwithinu hnext ha hrest
        -- This ring was late by less than a stride.
        have hlate : s.now ≤ a.deadline + slack := by
          have hlt := hok.lt k a hs
          rw [Within] at hwithin
          omega
        dsimp only at hreload hlow hhigh hlast
        refine ⟨m + 1, b, by omega, hb, hreload, ?_, ?_, fun _ => ?_⟩
        · rw [Nat.add_one_mul]
          omega
        · rw [Nat.add_one_mul]
          omega
        · rcases Nat.eq_zero_or_pos m with rfl | hpos
          · have hle := exec_now_le hrest
            omega
          · exact hlast hpos

/-- **An alarm that reloads rings again after every period**: in a settled clock its `m` rings and
the time fix each other up to what the rings were late. -/
theorem rings_periodically {slack : ℕ} (hops : ∀ op ∈ ops, ¬ op.Sets k ∧ op.StrideLe (slack + 1))
    (hok : Ok s) (hwithin : Within (slack + 1) s) (hs : s.alarms k = some a) (ha : 0 < a.reload)
    (hex : clock.exec s ops = some t) (ht : t.settled = t.now) : ∃ m,
      times k t.rung = times k s.rung + m ∧ (0 < m → a.deadline + m * a.reload ≤ t.now + a.reload) ∧
      t.now < a.deadline + m * (a.reload + slack) := by
  obtain ⟨m, b, hcount, hb, -, hlow, hhigh, hlast⟩ := periodic hops hok hwithin hs ha hex
  have hokt : Ok t :=
    Machine.exec_of_preserves ok_preserves hok (Machine.along_of_forall (fun _ _ => trivial) s) hex
  have hlt := hokt.lt k b hb
  refine ⟨m, hcount, fun hpos => ?_, by omega⟩
  have hle := hlast hpos
  omega

end Rings

end AlarmClock
