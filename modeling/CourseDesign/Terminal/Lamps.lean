import CourseDesign.Terminal.Tasks
import Mathlib.Logic.Function.Basic

/-!
# The lamps and the buzzer

`gpio_bl_init`, `card_success` and `card_fail` (`gpio_bl.c`), call by call.  `init_task` calls the
first before it creates the mutex, and `display_task` calls one of the others, as `card_id_judge`
has it, while it owns the mutex: so they never overlap, and their calls are one sequence.

* `Lamps.Foreseen` — the levels that a routine under way will leave, which its calls do not change.
* `idle_quiet_iff` — where `gpio_config` succeeded, the outputs are as they should be between two
  cards if and only if there has been a card before: the check in `gpio_bl_init` is inverted, and
  the buzzer sounds from start-up on.
-/

namespace CourseDesign.Terminal

def greenLed : ℕ := 12

def redLed : ℕ := 13

def beep : ℕ := 14

def espOk : ℤ := 0

/-- One call of a routine. -/
inductive GpioCall where
  | setLevel (gpio level : ℕ)
  | delay (ms : ℕ)
  deriving DecidableEq, Repr

/-- What `gpio_bl_init` does after `gpio_config` returned `err`, and what it returns. -/
def gpioBlInit (err : ℤ) : List GpioCall × ℤ :=
  if err = espOk then ([], -1)
  else ([.setLevel greenLed 0, .setLevel redLed 0, .setLevel beep 1], 0)

def cardSuccess : List GpioCall :=
  [.setLevel greenLed 1, .setLevel beep 0, .delay 100, .setLevel beep 1, .delay 50,
    .setLevel beep 0, .delay 100, .setLevel beep 1, .setLevel greenLed 0]

def cardFail : List GpioCall :=
  [.setLevel redLed 1, .setLevel beep 0, .delay 500, .setLevel beep 1, .setLevel redLed 0]

/-- The routine under way, with the calls it has still to make. -/
inductive Routine where
  | reset
  | init (todo : List GpioCall)
  | idle
  | feedback (todo : List GpioCall)
  deriving DecidableEq, Repr

/-- The output levels.  `config` records what `gpio_config` returned and `feedbacks` how often
`card_success` or `card_fail` has returned. -/
structure Lamps where
  level : ℕ → ℕ
  routine : Routine
  config : Option ℤ
  feedbacks : ℕ

inductive LampAction where
  /-- `gpio_bl_init` is entered, and its `gpio_config` returns `err`. -/
  | gpioConfig (err : ℤ)
  /-- The next call of the routine under way. -/
  | call
  | ret
  /-- `display_task` judges a card and enters the feedback for it. -/
  | judge (cardId : ℕ)
  deriving DecidableEq, Repr

/-- `gpio_set_level` sets the named output and no other. -/
def GpioCall.run (level : ℕ → ℕ) : GpioCall → ℕ → ℕ
  | .setLevel gpio l => Function.update level gpio l
  | .delay _ => level

open Machine (when)

/-- The terminal's outputs from reset on. -/
def lamps : Machine Lamps LampAction where
  init := { level := fun _ => 0, routine := .reset, config := none, feedbacks := 0 }
  step s
    | .gpioConfig err => when (s.routine = .reset)
        { s with routine := .init (gpioBlInit err).1, config := some err }
    | .call => match s.routine with
        | .init (c :: todo) => some { s with level := c.run s.level, routine := .init todo }
        | .feedback (c :: todo) => some { s with level := c.run s.level, routine := .feedback todo }
        | _ => none
    | .ret => match s.routine with
        | .init [] => some { s with routine := .idle }
        | .feedback [] => some { s with routine := .idle, feedbacks := s.feedbacks + 1 }
        | _ => none
    | .judge cardId => when (s.routine = .idle)
        { s with
          routine := .feedback
            (if cardIdJudge cardId cardCorrectId then cardSuccess else cardFail) }

/-- Both lamps off, and the buzzer, which sounds at level 0, off as well. -/
def Lamps.Quiet (s : Lamps) : Prop :=
  s.level greenLed = 0 ∧ s.level redLed = 0 ∧ s.level beep = 1

/-! ## What a routine leaves -/

/-- The levels after some calls. -/
def after (todo : List GpioCall) (level : ℕ → ℕ) : ℕ → ℕ := todo.foldl GpioCall.run level

theorem after_cons (c : GpioCall) (todo : List GpioCall) (level : ℕ → ℕ) :
    after (c :: todo) level = after todo (GpioCall.run level c) := rfl

/-- Both lamps are off and the buzzer is at `b`. -/
def LampsOff (b : ℕ) (level : ℕ → ℕ) : Prop :=
  level greenLed = 0 ∧ level redLed = 0 ∧ level beep = b

/-- Either feedback puts out the lamp it lit and leaves the buzzer off. -/
theorem after_feedback {b : ℕ} {level : ℕ → ℕ} (cardId : ℕ) (h : LampsOff b level) :
    LampsOff 1
      (after (if cardIdJudge cardId cardCorrectId then cardSuccess else cardFail) level) := by
  obtain ⟨hgreen, hred, -⟩ := h
  split_ifs
  · simpa [after, cardSuccess, GpioCall.run, LampsOff, greenLed, redLed, beep] using hred
  · simpa [after, cardFail, GpioCall.run, LampsOff, greenLed, redLed, beep] using hgreen

/-- The level the buzzer is left at by `gpio_bl_init`. -/
def buzzerAfterInit (err : ℤ) : ℕ := if err = espOk then 0 else 1

theorem after_init (err : ℤ) :
    LampsOff (buzzerAfterInit err) (after (gpioBlInit err).1 fun _ => 0) := by
  by_cases herr : err = espOk
  · simp [gpioBlInit, buzzerAfterInit, herr, after, LampsOff]
  · simp [gpioBlInit, buzzerAfterInit, herr, after, GpioCall.run, LampsOff, greenLed, redLed, beep]

/-- The levels that will be there once the routine under way has returned. -/
def Lamps.Foreseen (s : Lamps) : Prop :=
  match s.routine with
  | .reset => s.level = (fun _ => 0) ∧ s.feedbacks = 0
  | .init todo => ∃ err, s.config = some err ∧ s.feedbacks = 0 ∧
      LampsOff (buzzerAfterInit err) (after todo s.level)
  | .idle => ∃ err, s.config = some err ∧
      LampsOff (if s.feedbacks = 0 then buzzerAfterInit err else 1) s.level
  | .feedback todo => (∃ err, s.config = some err) ∧ LampsOff 1 (after todo s.level)

/-- **Step lemma.** -/
theorem foreseen_preserved : lamps.Preserves (fun _ _ => True) Lamps.Foreseen := by
  rintro s a t hs - h
  cases a with
  | gpioConfig err =>
      obtain ⟨hpc, rfl⟩ := Machine.when_eq_some.mp h
      simp only [Lamps.Foreseen, hpc] at hs
      obtain ⟨hlevel, hzero⟩ := hs
      exact ⟨err, rfl, hzero, hlevel ▸ after_init err⟩
  | call =>
      simp only [lamps] at h
      split at h
      · rename_i c todo hpc
        obtain rfl := Option.some.inj h
        simpa only [Lamps.Foreseen, hpc, after_cons] using hs
      · rename_i c todo hpc
        obtain rfl := Option.some.inj h
        simpa only [Lamps.Foreseen, hpc, after_cons] using hs
      · cases h
  | ret =>
      simp only [lamps] at h
      split at h
      · rename_i hpc
        obtain rfl := Option.some.inj h
        simp only [Lamps.Foreseen, hpc] at hs
        obtain ⟨err, hconfig, hzero, hoff⟩ := hs
        refine ⟨err, hconfig, ?_⟩
        rw [if_pos hzero]
        exact hoff
      · rename_i hpc
        obtain rfl := Option.some.inj h
        simp only [Lamps.Foreseen, hpc] at hs
        obtain ⟨⟨err, hconfig⟩, hoff⟩ := hs
        refine ⟨err, hconfig, ?_⟩
        rw [if_neg (Nat.succ_ne_zero _)]
        exact hoff
      · cases h
  | judge cardId =>
      obtain ⟨hpc, rfl⟩ := Machine.when_eq_some.mp h
      simp only [Lamps.Foreseen, hpc] at hs
      obtain ⟨err, hconfig, hoff⟩ := hs
      exact ⟨⟨err, hconfig⟩, after_feedback cardId hoff⟩

/-! ## Between two cards -/

/-- **The idle state of the lamps and the buzzer.**  Where `gpio_config` has succeeded and no
routine is running, the outputs are as they should be if and only if `card_success` or `card_fail`
has run before. -/
theorem idle_quiet_iff {as : List LampAction} {s : Lamps} (h : lamps.exec lamps.init as = some s)
    (hidle : s.routine = .idle) (hconfig : s.config = some espOk) :
    s.Quiet ↔ 0 < s.feedbacks := by
  have hforeseen : s.Foreseen :=
    Machine.exec_of_preserves foreseen_preserved (show lamps.init.Foreseen from ⟨rfl, rfl⟩)
      (Machine.along_of_forall (fun _ _ => trivial) _) h
  simp only [Lamps.Foreseen, hidle] at hforeseen
  obtain ⟨err, herr, hgreen, hred, hbeep⟩ := hforeseen
  obtain rfl : espOk = err := Option.some.inj (hconfig.symm.trans herr)
  by_cases hzero : s.feedbacks = 0
  · simp [Lamps.Quiet, hbeep, hzero, buzzerAfterInit]
  · simp [Lamps.Quiet, hgreen, hred, hbeep, hzero, Nat.pos_of_ne_zero hzero]

/-- Start-up and one card that is not enrolled. -/
def startAndFail : List LampAction :=
  [.gpioConfig espOk, .ret, .judge 7] ++ List.replicate 5 .call ++ [.ret]

theorem quiet_after_card :
    ∃ s, lamps.exec lamps.init startAndFail = some s ∧ s.routine = .idle ∧ s.Quiet := by
  obtain ⟨s, hs, hidle, hconfig, hpos⟩ := lamps.exists_exec lamps.init startAndFail
    (fun s => s.routine = .idle ∧ s.config = some espOk ∧ 0 < s.feedbacks) (by decide +kernel)
  exact ⟨s, hs, hidle, (idle_quiet_iff hs hidle hconfig).mpr hpos⟩

/-- `gpio_config` succeeds, `gpio_bl_init` returns -1, and the buzzer sounds until a card comes. -/
theorem buzzer_sounds_from_start :
    (gpioBlInit espOk).2 = -1 ∧
      ∃ s, lamps.exec lamps.init [.gpioConfig espOk, .ret] = some s ∧ s.routine = .idle ∧
        s.config = some espOk ∧ s.level beep = 0 ∧ ¬ s.Quiet := by
  obtain ⟨s, hs, hidle, hconfig, hbeep⟩ := lamps.exists_exec lamps.init [.gpioConfig espOk, .ret]
    (fun s => s.routine = .idle ∧ s.config = some espOk ∧ s.level beep = 0) (by decide +kernel)
  refine ⟨rfl, s, hs, hidle, hconfig, hbeep, fun hquiet => ?_⟩
  have hoff := hquiet.2.2
  omega

end CourseDesign.Terminal
