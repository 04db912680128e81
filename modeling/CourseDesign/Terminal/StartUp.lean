import CourseDesign.Terminal.Tasks

/-!
# Start-up

`app_main` and `init_task` (`main/main.c`) from power-on, together with what they bring up: the
scan task of the reader (`rc522.c`), which idles until `rc522_start`, and the two tasks of
`Tasks`.  Everything that exists runs interleaved, so a run is again a list of actions in any order.

`xTaskCreatePinnedToCore` stores the handle before the new task can run.  Memory suffices for the
tasks and the mutex.  A call with a NULL task or semaphore handle fails an assertion of FreeRTOS,
which resets the device.

* `tasks_exec` — without the failing calls, a run of the start-up is a run of `terminal`.
* `mutexInTime_preserved` — no task gets to its `xSemaphoreTake` before the mutex is there.
* `start_up_order` — no notification finds a NULL handle if and only if `app_main` has created both
  tasks before the first card is reported; nothing in the code waits for that.
-/

namespace CourseDesign.Terminal

/-- The statement `app_main` executes next. -/
inductive AppMainPc where
  | delay
  | createInitTask
  | createTcpClientTask
  | createDisplayTask
  | returned
  deriving DecidableEq, Repr

/-- The statement `init_task` executes next. -/
inductive InitTaskPc where
  | absent
  | gpioBlInit
  | createMutex
  | rc522Create
  | rc522RegisterEvents
  | rc522Start
  | delay
  | deleted
  deriving DecidableEq, Repr

/-- What the scan task needs before it calls `rc522_handler`. -/
structure Rc522 where
  registered : Bool
  scanning : Bool
  deriving DecidableEq, Repr

/-- Of the handles only whether they are set; `scanner` is `none` while it is NULL. -/
structure StartUp where
  appMain : AppMainPc
  initTask : InitTaskPc
  mutexMade : Bool
  scanner : Option Rc522
  xtaskTcpClient : Bool
  xtaskDisplay : Bool
  tasks : State
  reset : Bool
  deriving DecidableEq, Repr

inductive StartUpAction where
  | appMain
  /-- `ok`: whether a call of the reader's driver succeeds. -/
  | initTask (ok : Bool)
  | task (a : Action)
  deriving DecidableEq, Repr

def StartUp.stepAppMain (s : StartUp) : Option StartUp :=
  match s.appMain with
  | .delay => some { s with appMain := .createInitTask }
  | .createInitTask => some { s with appMain := .createTcpClientTask, initTask := .gpioBlInit }
  | .createTcpClientTask => some { s with appMain := .createDisplayTask, xtaskTcpClient := true }
  | .createDisplayTask => some { s with appMain := .returned, xtaskDisplay := true }
  | .returned => none

/-- No result is looked at.  Registering and starting do nothing to a NULL `scanner`. -/
def StartUp.stepInitTask (s : StartUp) (ok : Bool) : Option StartUp :=
  match s.initTask with
  | .absent => none
  | .gpioBlInit => some { s with initTask := .createMutex }
  | .createMutex => some { s with initTask := .rc522Create, mutexMade := true }
  | .rc522Create => some
      { s with
        initTask := .rc522RegisterEvents
        scanner := if ok then some ⟨false, false⟩ else none }
  | .rc522RegisterEvents => some
      { s with
        initTask := .rc522Start
        scanner := s.scanner.map fun rc522 => { rc522 with registered := ok } }
  | .rc522Start => some
      { s with
        initTask := .delay
        scanner := s.scanner.map fun rc522 => { rc522 with scanning := ok } }
  | .delay => some { s with initTask := .deleted }
  | .deleted => none

/-- What executes the statements of an actor is there: the two tasks are created, and the reader's
scan task reports cards to the handler. -/
def StartUp.present (s : StartUp) : Actor → Bool
  | .handler => s.scanner.any fun rc522 => rc522.registered && rc522.scanning
  | .tcpClient => s.xtaskTcpClient
  | .display => s.xtaskDisplay

/-- The statement passes a handle that is still NULL. -/
def StartUp.nullHandle (s : StartUp) : Action → Bool
  | .notifyDisplay => !s.xtaskDisplay
  | .notifyTcp => !s.xtaskTcpClient
  | .tcpSemTake _ | .displaySemTake _ => !s.mutexMade
  | _ => false

def StartUp.stepTask (s : StartUp) (a : Action) : Option StartUp :=
  if s.present a.actor then
    (terminal.step s.tasks a).map fun tasks =>
      if s.nullHandle a then { s with reset := true } else { s with tasks := tasks }
  else none

/-- The terminal from power-on. -/
def startUp : Machine StartUp StartUpAction where
  init :=
    { appMain := .delay, initTask := .absent, mutexMade := false, scanner := none,
      xtaskTcpClient := false, xtaskDisplay := false, tasks := terminal.init, reset := false }
  step s x :=
    if s.reset then none
    else match x with
      | .appMain => s.stepAppMain
      | .initTask ok => s.stepInitTask ok
      | .task a => s.stepTask a

/-! ## What a step can do -/

theorem step_appMain {s t : StartUp} (h : startUp.step s .appMain = some t) :
    s.stepAppMain = some t := by
  simp only [startUp] at h
  split at h
  · cases h
  · exact h

theorem step_initTask {s t : StartUp} {ok : Bool} (h : startUp.step s (.initTask ok) = some t) :
    s.stepInitTask ok = some t := by
  simp only [startUp] at h
  split at h
  · cases h
  · exact h

/-- A task of the running device takes its step, or resets the device. -/
theorem step_task {s t : StartUp} {a : Action} :
    startUp.step s (.task a) = some t ↔ s.reset = false ∧ s.present a.actor = true ∧
      ∃ tasks, terminal.step s.tasks a = some tasks ∧
        (if s.nullHandle a then { s with reset := true } else { s with tasks := tasks }) = t := by
  cases hreset : s.reset <;> cases hpresent : s.present a.actor <;>
    simp [startUp, StartUp.stepTask, hreset, hpresent]

/-! ## The tasks -/

/-- The step of the tasks a step of the start-up stands for. -/
def StartUp.taskSteps (s : StartUp) : StartUpAction → List Action
  | .task a => if s.nullHandle a then [] else [a]
  | _ => []

/-- `app_main` does nothing but create tasks. -/
theorem stepAppMain_frame {s t : StartUp} (h : s.stepAppMain = some t) :
    t.mutexMade = s.mutexMade ∧ t.scanner = s.scanner ∧ t.tasks = s.tasks ∧
      (t.initTask = s.initTask ∨ t.initTask = .gpioBlInit) := by
  rw [StartUp.stepAppMain] at h
  split at h
  · cases h
    exact ⟨rfl, rfl, rfl, Or.inl rfl⟩
  · cases h
    exact ⟨rfl, rfl, rfl, Or.inr rfl⟩
  · cases h
    exact ⟨rfl, rfl, rfl, Or.inl rfl⟩
  · cases h
    exact ⟨rfl, rfl, rfl, Or.inl rfl⟩
  · cases h

theorem stepInitTask_tasks {s t : StartUp} {ok : Bool} (h : s.stepInitTask ok = some t) :
    t.tasks = s.tasks := by
  rw [StartUp.stepInitTask] at h
  split at h
  all_goals
    first
    | cases h; rfl
    | cases h

/-- **The start-up refines the terminal**: its tasks do what the tasks do that are there from the
start. -/
theorem tasks_exec {as : List StartUpAction} {s : StartUp}
    (h : startUp.exec startUp.init as = some s) :
    terminal.exec terminal.init (startUp.trace StartUp.taskSteps startUp.init as) =
      some s.tasks := by
  have hstep : ∀ ⦃s : StartUp⦄ ⦃x : StartUpAction⦄ ⦃s' : StartUp⦄ ⦃t : State⦄, s.tasks = t → True →
      startUp.step s x = some s' →
        ∃ t', terminal.exec t (s.taskSteps x) = some t' ∧ s'.tasks = t' := by
    rintro s x s' _ rfl - hx
    cases x with
    | appMain => exact ⟨_, rfl, (stepAppMain_frame (step_appMain hx)).2.2.1⟩
    | initTask ok => exact ⟨_, rfl, stepInitTask_tasks (step_initTask hx)⟩
    | task a =>
        obtain ⟨-, -, tasks, htasks, rfl⟩ := step_task.mp hx
        cases hnull : s.nullHandle a with
        | true => exact ⟨s.tasks, by simp [StartUp.taskSteps, hnull], by simp⟩
        | false => exact ⟨tasks, by simp [StartUp.taskSteps, hnull, Machine.exec, htasks], by simp⟩
  obtain ⟨t, ht, rfl⟩ :=
    Machine.exec_simulates hstep rfl (Machine.along_of_forall (fun _ _ => trivial) _) h
  exact ht

/-! ## Before the mutex is there -/

def TcpPc.unnotified : TcpPc → Bool
  | .connecting | .notifyTake | .blocked | .returned => true
  | _ => false

def DisplayPc.unnotified : DisplayPc → Bool
  | .starting | .notifyTake | .blocked => true
  | _ => false

theorem at_tcpSemTake {s t : State} {pass : Bool}
    (h : s.stepTcp (.tcpSemTake pass) = some t) : s.tcp = .semTake := by
  cases pass with
  | true => exact (Machine.when_eq_some.mp h).1.1
  | false => exact (Machine.when_eq_some.mp h).1

theorem at_displaySemTake {s t : State} {pass : Bool}
    (h : s.stepDisplay (.displaySemTake pass) = some t) : ∃ drawn, s.display = .semTake drawn := by
  cases pass with
  | true =>
      obtain ⟨drawn, hpc, -⟩ := stepDisplay_semTake h
      exact ⟨drawn, hpc⟩
  | false =>
      obtain ⟨drawn, hpc, -⟩ := stepDisplay_semTimeout h
      exact ⟨drawn, hpc⟩

/-- No task has been notified yet. -/
structure State.BeforeFirstCard (s : State) : Prop where
  handler : s.handler = .idle
  tcp : s.tcp.unnotified = true
  tcpValue : s.tcpValue = 0
  display : s.display.unnotified = true
  displayValue : s.displayValue = 0

/-- A task that was not notified goes as far as its `ulTaskNotifyTake` and blocks there. -/
theorem beforeFirstCard_of_step {s t : State} {a : Action} (hs : s.BeforeFirstCard)
    (ha : a.actor ≠ .handler) (h : terminal.step s a = some t) : t.BeforeFirstCard := by
  have htcp := hs.tcp
  have hdisplay := hs.display
  cases a with
  | scan _ | notifyDisplay | notifyTcp => exact absurd rfl ha
  | tcpConnect ok =>
      obtain ⟨-, rfl⟩ := Machine.when_eq_some.mp h
      cases ok <;> exact { hs with tcp := rfl }
  | tcpNotifyTake =>
      obtain ⟨-, rfl⟩ := Machine.when_eq_some.mp h
      rw [if_pos hs.tcpValue]
      exact { hs with tcp := rfl }
  | tcpSemTake pass =>
      rw [at_tcpSemTake h] at htcp
      cases htcp
  | tcpMemset | tcpFormat | tcpSemGive | tcpDelay =>
      rw [(Machine.when_eq_some.mp h).1] at htcp
      cases htcp
  | tcpSend err =>
      obtain ⟨formatted, hpc, -⟩ := stepTcp_send h
      rw [hpc] at htcp
      cases htcp
  | displayStart =>
      obtain ⟨-, rfl⟩ := Machine.when_eq_some.mp h
      exact { hs with display := rfl }
  | displayNotifyTake =>
      obtain ⟨-, rfl⟩ := Machine.when_eq_some.mp h
      rw [if_pos hs.displayValue]
      exact { hs with display := rfl }
  | displayFormat | displayDraw | displaySemGive | displayDelay =>
      rw [(Machine.when_eq_some.mp h).1] at hdisplay
      cases hdisplay
  | displaySemTake pass =>
      obtain ⟨drawn, hpc⟩ := at_displaySemTake h
      rw [hpc] at hdisplay
      cases hdisplay
  | displayJudge =>
      obtain ⟨drawn, hpc, -⟩ := stepDisplay_judge h
      rw [hpc] at hdisplay
      cases hdisplay
  | displayFeedback =>
      obtain ⟨verdict, hpc, -⟩ := stepDisplay_feedback h
      rw [hpc] at hdisplay
      cases hdisplay

/-- `init_task` has still to create the mutex, so that the reader is not armed. -/
structure StartUp.MutexToCome (s : StartUp) : Prop where
  scanner : s.scanner = none
  initTask : s.initTask = .absent ∨ s.initTask = .gpioBlInit ∨ s.initTask = .createMutex
  tasks : s.tasks.BeforeFirstCard

def StartUp.MutexInTime (s : StartUp) : Prop := s.mutexMade = true ∨ s.MutexToCome

/-- A call of `xSemaphoreTake`. -/
def StartUpAction.takesMutex : StartUpAction → Bool
  | .task (.tcpSemTake _) | .task (.displaySemTake _) => true
  | _ => false

/-- A task takes the mutex only after it was created. -/
def StartUp.MutexReady (s : StartUp) (x : StartUpAction) : Prop :=
  x.takesMutex = true → s.mutexMade = true

theorem mutexInTime_init : startUp.init.MutexInTime :=
  Or.inr ⟨rfl, Or.inl rfl, ⟨rfl, rfl, rfl, rfl, rfl⟩⟩

theorem StartUp.MutexToCome.not_handler {s : StartUp} {a : Action} (hs : s.MutexToCome)
    (ha : s.present a.actor = true) : a.actor ≠ .handler := by
  rintro hactor
  simp [hactor, StartUp.present, hs.scanner] at ha

/-- **Step lemma.**  Until the mutex is there no card is reported, and the two tasks wait. -/
theorem mutexInTime_preserved : startUp.Preserves (fun _ _ => True) StartUp.MutexInTime := by
  rintro s x t hs - h
  cases x with
  | appMain =>
      obtain ⟨hmade, hscanner, htasks, hinit⟩ := stepAppMain_frame (step_appMain h)
      rcases hs with hs | hs
      · exact Or.inl (hmade.trans hs)
      · refine Or.inr ⟨hscanner.trans hs.scanner, ?_, htasks ▸ hs.tasks⟩
        rcases hinit with hsame | hfirst
        · rw [hsame]
          exact hs.initTask
        · exact Or.inr (Or.inl hfirst)
  | initTask ok =>
      replace h := step_initTask h
      simp only [StartUp.stepInitTask] at h
      rcases hs with hmade | ⟨hscanner, hinit, htasks⟩
      · refine Or.inl ?_
        split at h
        all_goals
          first
          | cases h; exact hmade
          | cases h; rfl
          | cases h
      · rcases hinit with hpc | hpc | hpc
        · simp [hpc] at h
        · simp only [hpc] at h
          cases h
          exact Or.inr ⟨hscanner, Or.inr (Or.inr rfl), htasks⟩
        · simp only [hpc] at h
          cases h
          exact Or.inl rfl
  | task a =>
      obtain ⟨-, hpresent, tasks, htasks, rfl⟩ := step_task.mp h
      rcases hs with hmade | hcome
      · left
        split <;> exact hmade
      · right
        split
        · exact { hcome with }
        · exact { hcome with
                  tasks := beforeFirstCard_of_step hcome.tasks (hcome.not_handler hpresent) htasks }

/-- A task that has not been notified does not take the mutex. -/
theorem takesMutex_of_step {s t : State} {a : Action} (hs : s.BeforeFirstCard)
    (h : terminal.step s a = some t) : (StartUpAction.task a).takesMutex = false := by
  have htcp := hs.tcp
  have hdisplay := hs.display
  cases a with
  | tcpSemTake pass =>
      rw [at_tcpSemTake h] at htcp
      cases htcp
  | displaySemTake pass =>
      obtain ⟨drawn, hpc⟩ := at_displaySemTake h
      rw [hpc] at hdisplay
      cases hdisplay
  | _ => rfl

theorem StartUp.MutexInTime.mutexReady {s t : StartUp} {x : StartUpAction} (hs : s.MutexInTime)
    (h : startUp.step s x = some t) : s.MutexReady x := by
  intro hx
  rcases hs with hmade | hcome
  · exact hmade
  · cases x with
    | task a =>
        obtain ⟨-, -, tasks, htasks, -⟩ := step_task.mp h
        rw [takesMutex_of_step hcome.tasks htasks] at hx
        cases hx
    | _ => cases hx

/-! ## Before the handles are there -/

def StartUp.Created (s : StartUp) : Prop := s.xtaskTcpClient = true ∧ s.xtaskDisplay = true

instance (s : StartUp) : Decidable s.Created := inferInstanceAs (Decidable (_ ∧ _))

/-- The handler is entered for a card. -/
def StartUpAction.reportsCard : StartUpAction → Bool
  | .task (.scan _) => true
  | _ => false

/-- A call of `xTaskNotifyFromISR`. -/
def StartUpAction.notifies : StartUpAction → Bool
  | .task .notifyDisplay | .task .notifyTcp => true
  | _ => false

/-- A card is reported only after `app_main` has created both tasks. -/
def StartUp.CardAfterCreate (s : StartUp) (x : StartUpAction) : Prop :=
  x.reportsCard = true → s.Created

instance (s : StartUp) : DecidablePred s.CardAfterCreate :=
  fun _ => inferInstanceAs (Decidable (_ → _))

/-- The handler makes a notification only after both handles were stored. -/
def StartUp.HandlesReady (s : StartUp) (x : StartUpAction) : Prop :=
  x.notifies = true → s.Created

instance (s : StartUp) : DecidablePred s.HandlesReady :=
  fun _ => inferInstanceAs (Decidable (_ → _))

/-- What holds as long as no card comes too early. -/
structure StartUp.Orderly (s : StartUp) : Prop where
  running : s.reset = false
  mutexInTime : s.MutexInTime
  /-- `app_main` creates `display_task` last. -/
  tcp_first : s.xtaskTcpClient = true ∨
    s.xtaskDisplay = false ∧ s.appMain ≠ .createDisplayTask ∧ s.appMain ≠ .returned
  created : s.tasks.handler ≠ .idle → s.Created

theorem orderly_init : startUp.init.Orderly where
  running := rfl
  mutexInTime := mutexInTime_init
  tcp_first := Or.inr ⟨rfl, by decide, by decide⟩
  created := fun hbusy => absurd rfl hbusy

/-- A notification is made by the handler that has one to make. -/
theorem busy_of_notifies {s t : State} {a : Action} (ha : (StartUpAction.task a).notifies = true)
    (h : terminal.step s a = some t) : s.handler ≠ .idle := by
  cases a with
  | notifyDisplay => simp [(Machine.when_eq_some.mp h).1]
  | notifyTcp => simp [(Machine.when_eq_some.mp h).1]
  | _ => cases ha

theorem StartUp.Orderly.handlesReady {s t : StartUp} {x : StartUpAction} (hs : s.Orderly)
    (h : startUp.step s x = some t) : s.HandlesReady x := by
  intro hx
  cases x with
  | task a =>
      obtain ⟨-, -, tasks, htasks, -⟩ := step_task.mp h
      exact hs.created (busy_of_notifies hx htasks)
  | _ => cases hx

/-- The two tasks leave the handler where it is. -/
theorem handler_of_step {s t : State} {a : Action} (ha : a.actor ≠ .handler)
    (h : terminal.step s a = some t) : t.handler = s.handler := by
  cases a with
  | scan _ | notifyDisplay | notifyTcp => exact absurd rfl ha
  | tcpConnect _ | tcpMemset | tcpFormat | tcpSemGive | tcpDelay | displayStart | displayFormat
  | displayDraw | displaySemGive | displayDelay =>
      obtain ⟨-, rfl⟩ := Machine.when_eq_some.mp h
      rfl
  | tcpNotifyTake | displayNotifyTake =>
      obtain ⟨-, rfl⟩ := Machine.when_eq_some.mp h
      split <;> rfl
  | tcpSemTake pass =>
      cases pass <;>
        · obtain ⟨-, rfl⟩ := Machine.when_eq_some.mp h
          rfl
  | displaySemTake pass =>
      cases pass with
      | true =>
          obtain ⟨drawn, -, -, rfl⟩ := stepDisplay_semTake h
          rfl
      | false =>
          obtain ⟨drawn, -, rfl⟩ := stepDisplay_semTimeout h
          rfl
  | tcpSend err =>
      obtain ⟨formatted, -, rfl⟩ := stepTcp_send h
      rfl
  | displayJudge =>
      obtain ⟨drawn, -, rfl⟩ := stepDisplay_judge h
      rfl
  | displayFeedback =>
      obtain ⟨verdict, -, rfl⟩ := stepDisplay_feedback h
      rfl

/-- The handler is busy with a card that was reported. -/
theorem busy_of_step {s t : State} {a : Action} (ha : (StartUpAction.task a).reportsCard = false)
    (h : terminal.step s a = some t) (hbusy : t.handler ≠ .idle) : s.handler ≠ .idle := by
  by_cases hactor : a.actor = .handler
  · cases a with
    | scan sn => cases ha
    | notifyDisplay => simp [(Machine.when_eq_some.mp h).1]
    | notifyTcp => simp [(Machine.when_eq_some.mp h).1]
    | _ => cases hactor
  · rwa [handler_of_step hactor h] at hbusy

/-- In an orderly state no call finds a NULL handle. -/
theorem StartUp.Orderly.nullHandle {s t : StartUp} {a : Action} (hs : s.Orderly)
    (h : startUp.step s (.task a) = some t) : s.nullHandle a = false := by
  have hcreated := hs.handlesReady h
  have hmade := hs.mutexInTime.mutexReady h
  cases a with
  | notifyDisplay => simp [StartUp.nullHandle, (hcreated rfl).2]
  | notifyTcp => simp [StartUp.nullHandle, (hcreated rfl).1]
  | tcpSemTake pass => simp [StartUp.nullHandle, hmade rfl]
  | displaySemTake pass => simp [StartUp.nullHandle, hmade rfl]
  | _ => rfl

/-- **Step lemma.** -/
theorem orderly_preserved : startUp.Preserves StartUp.CardAfterCreate StartUp.Orderly := by
  intro s x t hs hx h
  have hmutex : t.MutexInTime := mutexInTime_preserved hs.mutexInTime trivial h
  cases x with
  | appMain =>
      have htcp := hs.tcp_first
      replace h := step_appMain h
      simp only [StartUp.stepAppMain] at h
      split at h
      · cases h
        refine { hs with mutexInTime := hmutex, tcp_first := ?_ }
        exact htcp.imp_right fun hnone => ⟨hnone.1, by simp, by simp⟩
      · cases h
        refine { hs with mutexInTime := hmutex, tcp_first := ?_ }
        exact htcp.imp_right fun hnone => ⟨hnone.1, by simp, by simp⟩
      · cases h
        exact
          { hs with
            mutexInTime := hmutex
            tcp_first := Or.inl rfl
            created := fun hbusy => ⟨rfl, (hs.created hbusy).2⟩ }
      · rename_i hpc
        cases h
        have hset : s.xtaskTcpClient = true := htcp.resolve_right fun hnone => hnone.2.1 hpc
        exact
          { hs with
            mutexInTime := hmutex
            tcp_first := Or.inl hset
            created := fun _ => ⟨hset, rfl⟩ }
      · cases h
  | initTask ok =>
      replace h := step_initTask h
      simp only [StartUp.stepInitTask] at h
      split at h
      all_goals
        first
        | cases h; exact { hs with mutexInTime := hmutex }
        | cases h
  | task a =>
      have hnull := hs.nullHandle h
      obtain ⟨-, -, tasks, htasks, rfl⟩ := step_task.mp h
      simp only [hnull] at hmutex ⊢
      refine { hs with mutexInTime := hmutex, created := fun hbusy => ?_ }
      cases hcard : (StartUpAction.task a).reportsCard with
      | true => exact hx hcard
      | false => exact hs.created (busy_of_step hcard htasks hbusy)

/-! ## The order -/

/-- Without `xtask_display` the first notification of the handler fails its assertion. -/
theorem reset_of_notifyDisplay {s : StartUp} (hreset : s.reset = false)
    (hpresent : s.present .handler = true) (hhandler : s.tasks.handler = .notifyDisplay)
    (hdisplay : s.xtaskDisplay = false) :
    ∃ u, startUp.exec s [.task .notifyDisplay] = some u ∧ ¬ u.reset = false := by
  have hnull : s.nullHandle .notifyDisplay = true := by simp [StartUp.nullHandle, hdisplay]
  refine ⟨{ s with reset := true }, (startUp.exec_cons_eq_some).mpr ⟨_, ?_, rfl⟩, by simp⟩
  exact step_task.mpr
    ⟨hreset, hpresent, _, Machine.when_eq_some.mpr ⟨hhandler, rfl⟩, if_pos hnull⟩

/-- A card that comes too early resets the device, if the handler goes on before `app_main`. -/
theorem reset_of_early_card {s t : StartUp} {x : StartUpAction} (hs : s.Orderly)
    (hx : ¬ s.CardAfterCreate x) (h : startUp.step s x = some t) :
    ∃ cs, (∀ c ∈ cs, c.notifies = true) ∧ ∃ u, startUp.exec t cs = some u ∧ ¬ u.reset = false := by
  obtain ⟨hcard, hearly⟩ := Classical.not_imp.mp hx
  have hdisplay : s.xtaskDisplay = false := by
    rcases hs.tcp_first with hset | hnone
    · exact Bool.eq_false_of_not_eq_true fun hd => hearly ⟨hset, hd⟩
    · exact hnone.1
  cases x with
  | task a =>
      cases a with
      | scan sn =>
          obtain ⟨-, hpresent, tasks, htasks, rfl⟩ := step_task.mp h
          obtain ⟨-, rfl⟩ := Machine.when_eq_some.mp htasks
          exact ⟨[.task .notifyDisplay], by simp [StartUpAction.notifies],
            reset_of_notifyDisplay hs.running hpresent rfl hdisplay⟩
      | _ => cases hcard
  | _ => cases hcard

theorem StartUpAction.not_reportsCard_of_notifies {x : StartUpAction} (h : x.notifies = true) :
    ¬ x.reportsCard = true := by
  cases x with
  | task a =>
      cases a with
      | scan sn => cases h
      | _ => exact Bool.false_ne_true
  | _ => cases h

/-- **The order of the start-up.**  In every run the mutex is created before a task takes it.  No
notification finds a NULL handle, however the handler goes on, if and only if no card is reported
before `app_main` has created both tasks; then both handles are set at every notification. -/
theorem start_up_order {as : List StartUpAction} {s : StartUp}
    (h : startUp.exec startUp.init as = some s) :
    startUp.Along StartUp.MutexReady startUp.init as ∧
      (startUp.Along StartUp.CardAfterCreate startUp.init as ↔
        startUp.ThroughoutWith (fun c => c.notifies = true) (fun t => t.reset = false)
          startUp.init as) ∧
      (startUp.Along StartUp.CardAfterCreate startUp.init as →
        startUp.Along StartUp.HandlesReady startUp.init as) := by
  refine ⟨?_, ?_, fun hal => ?_⟩
  · exact Machine.Along.of_preserves mutexInTime_preserved
      (fun _ _ _ hs hstep => hs.mutexReady hstep) mutexInTime_init
      (Machine.along_of_forall (fun _ _ => trivial) _) h
  · exact Machine.along_iff_throughoutWith orderly_preserved (fun _ hs => hs.running)
      (fun s x hx hcard => absurd hcard (StartUpAction.not_reportsCard_of_notifies hx))
      (fun _ _ _ => reset_of_early_card) orderly_init h
  · exact hal.of_preserves orderly_preserved (fun _ _ _ hs hstep => hs.handlesReady hstep)
      orderly_init h

/-- `app_main` is through before `init_task` arms the reader, and a card is reported. -/
def lateCard : List StartUpAction :=
  List.replicate 4 .appMain ++ List.replicate 5 (.initTask true) ++
    [.task (.scan 580826361761), .task .notifyDisplay, .task .notifyTcp]

theorem late_card_finds_handles :
    ∃ s, startUp.exec startUp.init lateCard = some s ∧ s.reset = false ∧
      startUp.Along StartUp.HandlesReady startUp.init lateCard := by
  obtain ⟨s, hs, hrunning⟩ := startUp.exists_exec startUp.init lateCard
    (fun s => s.reset = false) (by decide +kernel)
  exact ⟨s, hs, hrunning, (start_up_order hs).2.2 (by decide +kernel)⟩

/-- A card lies on the reader, and `init_task` arms it while `tcp_client_task`, which has the higher
priority, keeps `app_main` from its last line. -/
def earlyCard : List StartUpAction :=
  List.replicate 3 .appMain ++ List.replicate 5 (.initTask true) ++
    [.task (.scan 580826361761), .task .notifyDisplay]

/-- The handler notifies `xtask_display` while it is NULL, which resets the device. -/
theorem early_card_finds_no_display :
    (∃ s, startUp.exec startUp.init earlyCard = some s ∧ s.xtaskDisplay = false ∧
      s.reset = true) ∧
    ¬ ∀ as s, startUp.exec startUp.init as = some s →
      startUp.Along StartUp.HandlesReady startUp.init as ∧
        startUp.Along StartUp.MutexReady startUp.init as := by
  have hearly := startUp.exists_exec startUp.init earlyCard
    (fun s => s.xtaskDisplay = false ∧ s.reset = true) (by decide +kernel)
  refine ⟨hearly, fun hall => ?_⟩
  obtain ⟨s, hs, -⟩ := hearly
  have hready := (hall _ s hs).1
  revert hready
  decide +kernel

end CourseDesign.Terminal
