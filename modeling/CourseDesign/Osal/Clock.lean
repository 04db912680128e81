import CourseDesign.Lib.Machine
import CourseDesign.Lib.Stretches
import CourseDesign.Osal.Divide

/-!
# The clock of the sensor nodes

`OSAL_Clock.c`: the ticks of the radio timer become milliseconds for the timers, and seconds for the
clock; and the seconds become a date.

* `clock_keeps_time` — no part of a tick is ever lost, and the clock shows the milliseconds that the
  timers have seen.
* `date_of_seconds`, `seconds_of_date` — seconds and dates are each other's inverse.
-/

namespace CourseDesign.Osal

open Mcs51 Stretches

/-! ## Ticks and milliseconds -/

/-- The state in which `osalMcuDivide31By16To16` is called: the dividend is in the registers, and
the divisor on the stack. -/
def divideCall (x d : ℕ) : State where
  byte l :=
    if l = .r 2 then BitVec.ofNat 8 x
    else if l = .r 3 then BitVec.ofNat 8 (x / 256)
    else if l = .r 4 then BitVec.ofNat 8 (x / 65536)
    else if l = .r 5 then BitVec.ofNat 8 (x / 16777216)
    else 0
  carry := false
  xdata n := if n = 0 then BitVec.ofNat 8 d else if n = 1 then BitVec.ofNat 8 (d / 256) else 0

/-- Its call, and the quotient and the remainder in the registers. -/
def osalMcuDivide (x d : ℕ) : Option (ℕ × ℕ) :=
  (call osalMcuDivide31By16To16 600 (0, divideCall x d)).map fun t =>
    (word t (.r 4) (.r 5), word t (.r 2) (.r 3))

/-- The variables of `OSAL_Clock.c`. -/
structure OsalClock where
  previousMacTimerTick : ℕ
  remUsTicks : ℕ
  timeMSec : ℕ
  timeSeconds : ℕ

/-- `osalClockUpdate`. -/
def osalClockUpdate (elapsedMSec : ℕ) (s : OsalClock) : OsalClock :=
  let s := { s with timeMSec := (s.timeMSec + elapsedMSec) % 2 ^ 16 }
  if 1000 ≤ s.timeMSec then
    { s with
      timeSeconds := (s.timeSeconds + s.timeMSec / 1000) % 2 ^ 32
      timeMSec := s.timeMSec % 1000 }
  else s

/-- `osalTimeUpdate` when the radio timer shows `tmp`, and the `elapsedMSec` that it passes on to
`osalTimerUpdate`, or 0 if it does not. -/
def osalTimeUpdate (tmp : ℕ) (s : OsalClock) : Option (OsalClock × ℕ) :=
  if tmp ≠ s.previousMacTimerTick then
    let ticks320us := (tmp + 2 ^ 32 - s.previousMacTimerTick) % 2 ^ 32
    let s := { s with previousMacTimerTick := tmp }
    let tmp := (ticks320us * 8 + s.remUsTicks) % 2 ^ 32
    (osalMcuDivide tmp 25).map fun (elapsedMSec, remUsTicks) =>
      let s := { s with remUsTicks := remUsTicks }
      (if elapsedMSec ≠ 0 then osalClockUpdate elapsedMSec s else s, elapsedMSec)
  else some (s, 0)

/-- The clock, the ticks of the radio timer since the start, and the milliseconds that were passed
on to the timers. -/
structure TimeKeeping where
  clock : OsalClock
  ticks : ℕ
  passed : ℕ

/-- Every label is the number of ticks to the next call of `osalTimeUpdate`. -/
def timeKeeping : Machine TimeKeeping ℕ where
  init := ⟨⟨0, 0, 0, 0⟩, 0, 0⟩
  step s d := (osalTimeUpdate ((s.ticks + d) % 2 ^ 32) s.clock).map fun (clock, elapsedMSec) =>
    ⟨clock, s.ticks + d, s.passed + elapsedMSec⟩

/-- The ticks of 64.5 seconds. -/
def maxGap : ℕ := 201675

/-- No part of a tick is lost, and the clock shows what was passed on. -/
structure TimeKeeping.Exact (s : TimeKeeping) : Prop where
  previous : s.clock.previousMacTimerTick = s.ticks % 2 ^ 32
  rem_lt : s.clock.remUsTicks < 25
  ticks : 25 * s.passed + s.clock.remUsTicks = 8 * s.ticks
  seconds : s.clock.timeSeconds = s.passed / 1000 % 2 ^ 32
  msec : s.clock.timeMSec = s.passed % 1000

section Ticks

variable {s t : TimeKeeping}

/-- What the call returns. -/
theorem osalMcuDivide_eq {x d : ℕ} (hd : d ≤ 2 ^ 15) (hlt : x < 2 ^ 32) (hquo : x / 2 ^ 16 < d) :
    osalMcuDivide x d = some (x / d, x % d) := by
  have hdividend : dividend (divideCall x d) = x := by
    simp [divideCall, dividend, word]
    omega
  have hdivisor : divisor (divideCall x d) = d := by
    simp [divideCall, divisor, word]
    omega
  obtain ⟨t, hreturns, hquotient, hremainder, -⟩ := osalMcuDivide_correct (divideCall x d)
    (by rw [hdivisor]; exact hd) (by rw [hdividend, hdivisor]; exact hquo)
  rw [hdividend, hdivisor] at hquotient hremainder
  rw [osalMcuDivide, hreturns.call (by decide), Option.map_some, hquotient, hremainder]

/-- **The clock is put forward**, and carries whole seconds over. -/
theorem osalClockUpdate_eq {e m : ℕ} {c : OsalClock} (hseconds : c.timeSeconds = m / 1000 % 2 ^ 32)
    (hmsec : c.timeMSec = m % 1000) (hle : m % 1000 + e < 2 ^ 16) :
    osalClockUpdate e c = { c with
      timeSeconds := (m + e) / 1000 % 2 ^ 32
      timeMSec := (m + e) % 1000 } := by
  have hsum : (c.timeMSec + e) % 2 ^ 16 = m % 1000 + e := by
    rw [hmsec, Nat.mod_eq_of_lt hle]
  rw [osalClockUpdate]
  dsimp only
  rw [hsum, hseconds]
  split
  · congr 1
    · omega
    · omega
  · congr 1
    · omega
    · omega

theorem osalTimeUpdate_of_ne {c : OsalClock} {tmp d e r : ℕ} (hne : tmp ≠ c.previousMacTimerTick)
    (hgap : (tmp + 2 ^ 32 - c.previousMacTimerTick) % 2 ^ 32 = d)
    (hdivide : osalMcuDivide ((d * 8 + c.remUsTicks) % 2 ^ 32) 25 = some (e, r)) :
    osalTimeUpdate tmp c =
      some (if e ≠ 0 then
        osalClockUpdate e { c with previousMacTimerTick := tmp, remUsTicks := r }
      else { c with previousMacTimerTick := tmp, remUsTicks := r }, e) := by
  rw [osalTimeUpdate, if_pos hne]
  dsimp only
  rw [hgap, hdivide]
  rfl

theorem step_of_update {c : OsalClock} {d e : ℕ}
    (h : osalTimeUpdate ((s.ticks + d) % 2 ^ 32) s.clock = some (c, e)) :
    timeKeeping.step s d = some ⟨c, s.ticks + d, s.passed + e⟩ := by
  dsimp only [timeKeeping]
  rw [h]
  rfl

/-- **No part of a tick is lost** by a call of `osalTimeUpdate`. -/
theorem exact_step {d : ℕ} (h : s.Exact) (hd : d ≤ maxGap) : ∃ t,
    timeKeeping.step s d = some t ∧ t.Exact := by
  rw [maxGap] at hd
  have hrem := h.rem_lt
  have hticks := h.ticks
  by_cases hsame : (s.ticks + d) % 2 ^ 32 = s.clock.previousMacTimerTick
  · -- No tick has passed.
    have hzero : d = 0 := by
      rw [h.previous] at hsame
      omega
    subst hzero
    have hupdate : osalTimeUpdate ((s.ticks + 0) % 2 ^ 32) s.clock = some (s.clock, 0) := by
      rw [osalTimeUpdate, if_neg (not_not.mpr hsame)]
    exact ⟨s, step_of_update hupdate, h⟩
  · have hgap : ((s.ticks + d) % 2 ^ 32 + 2 ^ 32 - s.clock.previousMacTimerTick) % 2 ^ 32 = d := by
      rw [h.previous]
      omega
    obtain ⟨e, he⟩ : ∃ e, (d * 8 + s.clock.remUsTicks) / 25 = e := ⟨_, rfl⟩
    obtain ⟨r, hr⟩ : ∃ r, (d * 8 + s.clock.remUsTicks) % 25 = r := ⟨_, rfl⟩
    have hdivide : osalMcuDivide ((d * 8 + s.clock.remUsTicks) % 2 ^ 32) 25 = some (e, r) := by
      rw [Nat.mod_eq_of_lt (by omega), osalMcuDivide_eq (by decide) (by omega) (by omega), he, hr]
    have hupdate := osalTimeUpdate_of_ne hsame hgap hdivide
    have hrest : r < 25 ∧ 25 * (s.passed + e) + r = 8 * (s.ticks + d) := by omega
    by_cases hzero : e = 0
    · rw [if_neg (not_not.mpr hzero)] at hupdate
      subst hzero
      exact ⟨_, step_of_update hupdate, rfl, hrest.1, hrest.2, h.seconds, h.msec⟩
    · have hclock := osalClockUpdate_eq (e := e) (c := { s.clock with
        previousMacTimerTick := (s.ticks + d) % 2 ^ 32
        remUsTicks := r }) h.seconds h.msec (by omega)
      rw [if_pos hzero, hclock] at hupdate
      exact ⟨_, step_of_update hupdate, rfl, hrest.1, hrest.2, rfl, rfl⟩

theorem exact_init : timeKeeping.init.Exact := ⟨rfl, by decide, rfl, rfl, rfl⟩

theorem exact_exec {gaps : List ℕ} (h : s.Exact) (hgaps : ∀ d ∈ gaps, d ≤ maxGap) : ∃ t,
    timeKeeping.exec s gaps = some t ∧ t.Exact ∧ t.ticks = s.ticks + gaps.sum := by
  induction gaps generalizing s with
  | nil => exact ⟨s, rfl, h, by simp⟩
  | cons d gaps ih =>
      obtain ⟨u, hu, hexact⟩ := exact_step h (hgaps d (by simp))
      obtain ⟨t, ht, hexact', hticks⟩ := ih hexact fun e he => hgaps e (List.mem_cons_of_mem _ he)
      have hone : u.ticks = s.ticks + d := by
        obtain ⟨c, -, rfl⟩ := Option.map_eq_some_iff.mp hu
        rfl
      refine ⟨t, timeKeeping.exec_cons_eq_some.mpr ⟨u, hu, ht⟩, hexact', ?_⟩
      rw [hticks, hone, List.sum_cons, Nat.add_assoc]

/-- **The clock keeps the time.**  If no two calls of `osalTimeUpdate` are more than 64.5 seconds
apart, all of them return, and after each the milliseconds that the timers were given are the ticks
of the radio timer to the last part, however often its counter has overflown; the clock shows them
as seconds and milliseconds. -/
theorem clock_keeps_time (gaps : List ℕ) (hgaps : ∀ d ∈ gaps, d ≤ maxGap) : ∃ s,
    timeKeeping.exec timeKeeping.init gaps = some s ∧ s.ticks = gaps.sum ∧
      s.passed = 8 * gaps.sum / 25 ∧ s.clock.timeSeconds = s.passed / 1000 % 2 ^ 32 ∧
      s.clock.timeMSec = s.passed % 1000 := by
  obtain ⟨s, hs, hexact, hticks⟩ := exact_exec exact_init hgaps
  have hsum : s.ticks = gaps.sum := hticks.trans (Nat.zero_add _)
  have hrem := hexact.rem_lt
  have hpassed := hexact.ticks
  rw [hsum] at hpassed
  exact ⟨s, hs, hsum, by omega, hexact.seconds, hexact.msec⟩

theorem clock_keeps_time_minute : ∃ s,
    timeKeeping.exec timeKeeping.init [187500, 1, 3] = some s ∧ s.ticks = [187500, 1, 3].sum ∧
      s.passed = 8 * [187500, 1, 3].sum / 25 ∧ s.clock.timeSeconds = s.passed / 1000 % 2 ^ 32 ∧
      s.clock.timeMSec = s.passed % 1000 :=
  clock_keeps_time [187500, 1, 3] (by decide)

end Ticks

/-! ## Seconds and dates -/

/-- `UTCTimeStruct`. -/
structure UTCTimeStruct where
  seconds : ℕ
  minutes : ℕ
  hour : ℕ
  day : ℕ
  month : ℕ
  year : ℕ
  deriving DecidableEq

/-- `IsLeapYear`, 1 or 0. -/
def isLeapYear (yr : ℕ) : ℕ := if yr % 400 = 0 ∨ yr % 100 ≠ 0 ∧ yr % 4 = 0 then 1 else 0

/-- `YearLength`. -/
def yearLength (yr : ℕ) : ℕ := if isLeapYear yr ≠ 0 then 366 else 365

/-- `monthLength`. -/
def monthLength (lpyr mon : ℕ) : ℕ :=
  if mon = 1 then 28 + lpyr
  else
    let mon := if 6 < mon then mon - 1 else mon
    if mon % 2 = 1 then 30 else 31

/-- `BEGYEAR`. -/
def begYear : ℕ := 2000

/-- `DAY`. -/
def daySeconds : ℕ := 86400

/-- `osal_ConvertUTCTime`. -/
def osalConvertUTCTime (secTime : ℕ) : Option UTCTimeStruct :=
  let day := secTime % daySeconds
  let numDays := secTime / daySeconds % 2 ^ 16
  (locate yearLength (2 ^ 16) numDays begYear).bind fun (numDays, year) =>
    (locate (monthLength (isLeapYear year)) (2 ^ 8) numDays 0).map fun (numDays, month) =>
      { seconds := day % 60
        minutes := day % 3600 / 60
        hour := day / 3600
        day := numDays
        month := month
        year := year }

/-- `while (--month >= 0) days += monthLength(lpyr, month);` -/
def addMonths (lpyr days : ℕ) : ℕ → ℕ
  | 0 => days
  | month + 1 => addMonths lpyr ((days + monthLength lpyr month) % 2 ^ 16) month

/-- `while (--year >= BEGYEAR) days += YearLength(year);` -/
def addYears : ℕ → ℕ → ℕ → Option ℕ
  | 0, _, _ => none
  | fuel + 1, days, year =>
      let year := (year + 2 ^ 16 - 1) % 2 ^ 16
      if begYear ≤ year then addYears fuel ((days + yearLength year) % 2 ^ 16) year else some days

/-- `osal_ConvertUTCSecs`. -/
def osalConvertUTCSecs (tm : UTCTimeStruct) : Option ℕ :=
  let seconds := ((tm.hour * 60 + tm.minutes) * 60 + tm.seconds) % 2 ^ 32
  -- `int8 month`: from 129 on there is no month to count down.
  let month := if tm.month ≤ 128 then tm.month else 0
  (addYears (2 ^ 16 + 1) (addMonths (isLeapYear tm.year) tm.day month) tm.year).map fun days =>
    (seconds + days * daySeconds) % 2 ^ 32

/-- A date and a time of day. -/
structure UTCTimeStruct.Valid (tm : UTCTimeStruct) : Prop where
  seconds_lt : tm.seconds < 60
  minutes_lt : tm.minutes < 60
  hour_lt : tm.hour < 24
  month_lt : tm.month < 12
  day_lt : tm.day < monthLength (isLeapYear tm.year) tm.month
  le_year : begYear ≤ tm.year

/-- The days from 2000 to the date. -/
def UTCTimeStruct.days (tm : UTCTimeStruct) : ℕ :=
  before yearLength begYear (tm.year - begYear) +
    (before (monthLength (isLeapYear tm.year)) 0 tm.month + tm.day)

/-- The seconds from 2000 to the time. -/
def UTCTimeStruct.total (tm : UTCTimeStruct) : ℕ :=
  (tm.hour * 60 + tm.minutes) * 60 + tm.seconds + tm.days * daySeconds

section Dates

variable {tm : UTCTimeStruct} {lpyr yr : ℕ}

theorem before_months (yr : ℕ) : before (monthLength (isLeapYear yr)) 0 12 = yearLength yr := by
  have hleap : isLeapYear yr = 0 ∨ isLeapYear yr = 1 := by
    rw [isLeapYear]
    split
    · exact Or.inr rfl
    · exact Or.inl rfl
  rcases hleap with h | h
  · rw [h, yearLength, h]
    rfl
  · rw [h, yearLength, h]
    rfl

theorem le_yearLength (yr : ℕ) : 365 ≤ yearLength yr := by
  rw [yearLength]
  split
  · exact Nat.le_succ 365
  · exact le_refl 365

theorem addMonths_eq {days month : ℕ} (h : days + before (monthLength lpyr) 0 month < 2 ^ 16) :
    addMonths lpyr days month = days + before (monthLength lpyr) 0 month := by
  induction month generalizing days with
  | zero => rfl
  | succ month ih =>
      rw [before, Nat.zero_add] at h ⊢
      rw [addMonths, Nat.mod_eq_of_lt (by omega), ih (by omega)]
      omega

theorem addYears_eq {fuel days k : ℕ} (hfuel : k < fuel) (hyear : begYear + k < 2 ^ 16)
    (h : days + before yearLength begYear k < 2 ^ 16) :
    addYears fuel days (begYear + k) = some (days + before yearLength begYear k) := by
  induction k generalizing fuel days with
  | zero =>
      obtain ⟨fuel, rfl⟩ := Nat.exists_eq_add_of_lt hfuel
      have hfirst : (begYear + 0 + 2 ^ 16 - 1) % 2 ^ 16 = begYear - 1 := by decide
      rw [addYears, hfirst, if_neg (by decide), before, Nat.add_zero]
  | succ k ih =>
      obtain ⟨fuel, rfl⟩ := Nat.exists_eq_add_of_lt hfuel
      have hprevious : (begYear + (k + 1) + 2 ^ 16 - 1) % 2 ^ 16 = begYear + k := by omega
      rw [before] at h ⊢
      rw [addYears, hprevious, if_pos (Nat.le_add_right _ _), Nat.mod_eq_of_lt (by omega),
        ih (by omega) (by omega) (by omega)]
      exact congrArg some (by omega)

/-- The days and the years that 32 bits of seconds can count. -/
theorem UTCTimeStruct.days_lt (hlt : tm.total < 2 ^ 32) :
    tm.days < 50000 ∧ tm.year - begYear < 150 := by
  have hdays : tm.days * daySeconds < 2 ^ 32 := (Nat.le_add_left _ _).trans_lt hlt
  have hyears : (tm.year - begYear) * 365 ≤ before yearLength begYear (tm.year - begYear) :=
    mul_le_before le_yearLength
  rw [daySeconds] at hdays
  have hle : before yearLength begYear (tm.year - begYear) ≤ tm.days := Nat.le_add_right _ _
  omega

/-- **A date to seconds.** -/
theorem osalConvertUTCSecs_eq (h : tm.Valid) (hlt : tm.total < 2 ^ 32) :
    osalConvertUTCSecs tm = some tm.total := by
  obtain ⟨hdays, hyears⟩ := tm.days_lt hlt
  have hmonth := h.month_lt
  have hyear : begYear + (tm.year - begYear) = tm.year := Nat.add_sub_cancel' h.le_year
  rw [UTCTimeStruct.days] at hdays
  have hmonths : addMonths (isLeapYear tm.year) tm.day tm.month =
      tm.day + before (monthLength (isLeapYear tm.year)) 0 tm.month := addMonths_eq (by omega)
  have hcount : addYears (2 ^ 16 + 1)
      (tm.day + before (monthLength (isLeapYear tm.year)) 0 tm.month) tm.year = some tm.days := by
    have hfits : begYear + (tm.year - begYear) < 2 ^ 16 := by
      rw [begYear] at hyears ⊢
      omega
    rw [← hyear, addYears_eq (by omega) hfits (by rw [hyear]; omega), hyear, UTCTimeStruct.days]
    exact congrArg some (by omega)
  have hseconds := h.seconds_lt
  have hminutes := h.minutes_lt
  have hhour := h.hour_lt
  have hday : ((tm.hour * 60 + tm.minutes) * 60 + tm.seconds) % 2 ^ 32 =
      (tm.hour * 60 + tm.minutes) * 60 + tm.seconds := Nat.mod_eq_of_lt (by omega)
  rw [osalConvertUTCSecs, hday, if_pos (by omega), hmonths, hcount, Option.map_some]
  exact congrArg some (Nat.mod_eq_of_lt hlt)

/-- **Seconds to a date.** -/
theorem osalConvertUTCTime_total (h : tm.Valid) (hlt : tm.total < 2 ^ 32) :
    osalConvertUTCTime tm.total = some tm := by
  obtain ⟨hdays, hyears⟩ := tm.days_lt hlt
  have hseconds := h.seconds_lt
  have hminutes := h.minutes_lt
  have hhour := h.hour_lt
  have hday : tm.total % daySeconds = (tm.hour * 60 + tm.minutes) * 60 + tm.seconds := by
    rw [UTCTimeStruct.total, daySeconds]
    omega
  have hnumDays : tm.total / daySeconds % 2 ^ 16 = tm.days := by
    rw [UTCTimeStruct.total, daySeconds]
    omega
  have hyear : begYear + (tm.year - begYear) = tm.year := Nat.add_sub_cancel' h.le_year
  have hinyear : before (monthLength (isLeapYear tm.year)) 0 tm.month + tm.day <
      yearLength (begYear + (tm.year - begYear)) := by
    rw [hyear, ← before_months]
    exact before_add_lt (by rw [Nat.zero_add]; exact h.day_lt) h.month_lt
  have hyearFound := locate_before hinyear (show tm.year - begYear < 2 ^ 16 by omega)
  have hmonthFound := locate_before (i := 0) (by rw [Nat.zero_add]; exact h.day_lt)
    (show tm.month < 2 ^ 8 from h.month_lt.trans (by decide))
  rw [hyear] at hyearFound
  rw [Nat.zero_add] at hmonthFound
  rw [osalConvertUTCTime, hday, hnumDays, UTCTimeStruct.days, hyearFound, Option.bind_some]
  dsimp only
  rw [hmonthFound, Option.map_some]
  refine congrArg some ?_
  rw [UTCTimeStruct.mk.injEq]
  refine ⟨by omega, by omega, by omega, rfl, rfl, rfl⟩

/-- Every second has its date. -/
theorem exists_valid {n : ℕ} (hn : n < 2 ^ 32) : ∃ tm : UTCTimeStruct, tm.Valid ∧ tm.total = n := by
  have hyears : 150 * 365 ≤ before yearLength begYear 150 := mul_le_before le_yearLength
  have hlt : n / daySeconds < before yearLength begYear 150 := by
    rw [daySeconds]
    omega
  obtain ⟨j, r, -, hr, hdays⟩ := exists_before hlt
  rw [← before_months] at hr
  obtain ⟨month, day, hmonth, hday, hr⟩ := exists_before hr
  rw [Nat.zero_add] at hday
  refine ⟨⟨n % daySeconds % 60, n % daySeconds % 3600 / 60, n % daySeconds / 3600, day, month,
    begYear + j⟩, ⟨?_, ?_, ?_, hmonth, hday, Nat.le_add_right _ _⟩, ?_⟩
  · exact Nat.mod_lt _ (by decide)
  · dsimp only
    omega
  · dsimp only [daySeconds]
    omega
  · dsimp only [UTCTimeStruct.total, UTCTimeStruct.days]
    rw [Nat.add_sub_cancel_left, ← hr, ← hdays, daySeconds]
    omega

/-- **Every second has its date**: a month of twelve, a day of the month, and the seconds come out
again.  In particular both searches end, and the day count of 16 bits is enough. -/
theorem date_of_seconds {secTime : ℕ} (h : secTime < 2 ^ 32) : ∃ tm,
    osalConvertUTCTime secTime = some tm ∧ tm.Valid ∧ osalConvertUTCSecs tm = some secTime := by
  obtain ⟨tm, hvalid, rfl⟩ := exists_valid h
  exact ⟨tm, osalConvertUTCTime_total hvalid h, hvalid, osalConvertUTCSecs_eq hvalid h⟩

/-- The dates are those of the Gregorian calendar. -/
example : [1999, 2000, 2024, 2025, 2100].map yearLength = [365, 366, 366, 365, 365] ∧
    (List.range 12).map (monthLength 0) = [31, 28, 31, 30, 31, 30, 31, 31, 30, 31, 30, 31] ∧
    monthLength 1 1 = 29 := by decide

theorem date_of_seconds_last : ∃ tm, osalConvertUTCTime 4294967295 = some tm ∧ tm.Valid ∧
    osalConvertUTCSecs tm = some 4294967295 :=
  date_of_seconds (by decide)

/-- **A date is not changed by its seconds.**  A date whose seconds fit the clock is converted to
them, and they to the date. -/
theorem seconds_of_date (h : tm.Valid) (hlt : tm.total < 2 ^ 32) : ∃ secTime,
    osalConvertUTCSecs tm = some secTime ∧ secTime = tm.total ∧
      osalConvertUTCTime secTime = some tm :=
  ⟨tm.total, osalConvertUTCSecs_eq h hlt, rfl, osalConvertUTCTime_total h hlt⟩

/-- 12:30 on the 29th of February 2024. -/
def leapDay : UTCTimeStruct := ⟨0, 30, 12, 28, 1, 2024⟩

theorem seconds_of_date_leapday : ∃ secTime, osalConvertUTCSecs leapDay = some secTime ∧
    secTime = leapDay.total ∧ osalConvertUTCTime secTime = some leapDay :=
  seconds_of_date ⟨by decide, by decide, by decide, by decide, by decide, by decide⟩ (by decide)

end Dates

end CourseDesign.Osal
