import CourseDesign.Lib.Machine
import CourseDesign.Lib.Decimal

/-!
# The card terminal's tasks

`rc522_handler`, `display_task` and `tcp_client_task` of the card terminal (`main/main.c`), over
the globals `card_id`, `card_id_str` and `mutex`, statement by statement.  The handler runs in the
reader's event loop and handles one event at a time; the two tasks are scheduled freely against it
and against each other, so a run is a list of `Action`s in any order.

The FreeRTOS calls behave as documented.  `ulTaskNotifyTake(pdTRUE, portMAX_DELAY)` blocks on a
notification value of zero and clears any other; a notification with `eNoAction` leaves the value
alone and wakes a task that is blocked in `ulTaskNotifyTake` at that moment; `xSemaphoreTake`
succeeds only on a free mutex and may time out; `xSemaphoreGive` frees a mutex its caller owns.

`scanned`, `sent` and `rounds` record what happened; no statement of the source reads them.
-/

namespace CourseDesign.Terminal

/-- The tasks that take `mutex`. -/
inductive Task where
  | display
  | tcpClient
  deriving DecidableEq, Repr

/-- Where `rc522_handler` is: between events, or in front of one of its two notifications. -/
inductive HandlerPc where
  | idle
  | notifyDisplay
  | notifyTcp
  deriving DecidableEq, Repr

/-- The statement `tcp_client_task` executes next. -/
inductive TcpPc where
  /-- Wi-Fi set-up, `socket` and `connect`. -/
  | connecting
  | notifyTake
  | blocked
  | semTake
  | memset
  | format
  /-- At `send`, after `sprintf` formatted this value of `card_id`. -/
  | send (formatted : ℕ)
  | semGive
  | delay
  | returned
  deriving DecidableEq, Repr

/-- The statement `display_task` executes next. -/
inductive DisplayPc where
  /-- `OLEDDisplay_init` and the delay after it. -/
  | starting
  | notifyTake
  | blocked
  | format
  | draw
  /-- At `xSemaphoreTake`, with this text on the display. -/
  | semTake (drawn : List UInt8)
  | judge (drawn : List UInt8)
  | feedback (verdict : Bool)
  | semGive
  | delay
  deriving DecidableEq, Repr

/-- One call of `send`: the value formatted in this critical section and the string passed on. -/
structure Sent where
  formatted : ℕ
  text : List UInt8
  deriving DecidableEq, Repr

/-- One verdict of `display_task`: the text on the display, the ID that was judged, the result. -/
structure Round where
  drawn : List UInt8
  judged : ℕ
  verdict : Bool
  deriving DecidableEq, Repr

/-- The globals of `main.h`, the two tasks' notification values and all program points. -/
structure State where
  cardId : ℕ
  /-- The C string in `card_id_str`. -/
  cardIdStr : List UInt8
  mutex : Option Task
  handler : HandlerPc
  display : DisplayPc
  displayValue : ℕ
  tcp : TcpPc
  tcpValue : ℕ
  scanned : List ℕ
  sent : List Sent
  rounds : List Round
  deriving DecidableEq, Repr

/-- One statement of one of the three, with what its call returns. -/
inductive Action where
  /-- The handler is entered for a tag with this serial number and stores it. -/
  | scan (serialNumber : ℕ)
  | notifyDisplay
  | notifyTcp
  | tcpConnect (ok : Bool)
  | tcpNotifyTake
  | tcpSemTake (pass : Bool)
  | tcpMemset
  | tcpFormat
  | tcpSend (err : ℤ)
  | tcpSemGive
  | tcpDelay
  | displayStart
  | displayNotifyTake
  | displayFormat
  | displayDraw
  | displaySemTake (pass : Bool)
  | displayJudge
  | displayFeedback
  | displaySemGive
  | displayDelay
  deriving DecidableEq, Repr

/-! ## The functions the tasks call -/

/-- `card_correct_id`: ten values are listed, the eleventh is zero by default. -/
def cardCorrectId : List ℕ := [580826361761, 0, 0, 0, 0, 0, 0, 0, 0, 0, 0]

/-- `card_id_judge`: the linear search over eleven entries. -/
def cardIdJudge (cardId : ℕ) (cardCorrectId : List ℕ) : Bool :=
  (cardCorrectId.take 11).any fun correct => cardId == correct

/-- `sprintf(card_id_str, "%llu", card_id)`. -/
def sprintfLlu (cardId : ℕ) : List UInt8 := Decimal.text cardId

/-- `xTaskNotifyFromISR(xtask_tcp_client, 0, eNoAction, NULL)`: a blocked task goes on to the
statement after its `ulTaskNotifyTake`, any other task sees nothing. -/
def TcpPc.notified : TcpPc → TcpPc
  | .blocked => .semTake
  | pc => pc

/-- `xTaskNotifyFromISR(xtask_display, 0, eNoAction, NULL)`. -/
def DisplayPc.notified : DisplayPc → DisplayPc
  | .blocked => .format
  | pc => pc

/-- `xSemaphoreGive(mutex)` by task `t`. -/
def semGive (t : Task) (mutex : Option Task) : Option Task :=
  if mutex = some t then none else mutex

/-! ## The machine -/

open Machine (when)

def State.stepHandler (s : State) : Action → Option State
  | .scan sn => when (s.handler = .idle)
      { s with cardId := sn, handler := .notifyDisplay, scanned := s.scanned ++ [sn] }
  | .notifyDisplay => when (s.handler = .notifyDisplay)
      { s with handler := .notifyTcp, display := s.display.notified }
  | .notifyTcp => when (s.handler = .notifyTcp)
      { s with handler := .idle, tcp := s.tcp.notified }
  | _ => none

/-- The statements of `tcp_client_task`.  An error of `send` closes the socket and returns. -/
def State.stepTcp (s : State) : Action → Option State
  | .tcpConnect ok => when (s.tcp = .connecting)
      { s with tcp := if ok then .notifyTake else .returned }
  | .tcpNotifyTake => when (s.tcp = .notifyTake)
      (if s.tcpValue = 0 then { s with tcp := .blocked }
       else { s with tcp := .semTake, tcpValue := 0 })
  | .tcpSemTake true => when (s.tcp = .semTake ∧ s.mutex = none)
      { s with tcp := .memset, mutex := some .tcpClient }
  | .tcpSemTake false => when (s.tcp = .semTake) { s with tcp := .delay }
  | .tcpMemset => when (s.tcp = .memset) { s with tcp := .format, cardIdStr := [] }
  | .tcpFormat => when (s.tcp = .format)
      { s with tcp := .send s.cardId, cardIdStr := sprintfLlu s.cardId }
  | .tcpSend err => match s.tcp with
      | .send formatted => some
          { s with
            tcp := if err < 0 then .returned else .semGive
            sent := s.sent ++ [⟨formatted, s.cardIdStr⟩] }
      | _ => none
  | .tcpSemGive => when (s.tcp = .semGive)
      { s with tcp := .delay, mutex := semGive .tcpClient s.mutex }
  | .tcpDelay => when (s.tcp = .delay) { s with tcp := .notifyTake }
  | _ => none

def State.stepDisplay (s : State) : Action → Option State
  | .displayStart => when (s.display = .starting) { s with display := .notifyTake }
  | .displayNotifyTake => when (s.display = .notifyTake)
      (if s.displayValue = 0 then { s with display := .blocked }
       else { s with display := .format, displayValue := 0 })
  | .displayFormat => when (s.display = .format)
      { s with display := .draw, cardIdStr := sprintfLlu s.cardId }
  | .displayDraw => when (s.display = .draw) { s with display := .semTake s.cardIdStr }
  | .displaySemTake true => match s.display with
      | .semTake drawn => when (s.mutex = none)
          { s with display := .judge drawn, mutex := some .display }
      | _ => none
  | .displaySemTake false => match s.display with
      | .semTake _ => some { s with display := .delay }
      | _ => none
  | .displayJudge => match s.display with
      | .judge drawn =>
          let verdict := cardIdJudge s.cardId cardCorrectId
          some
            { s with
              display := .feedback verdict
              rounds := s.rounds ++ [⟨drawn, s.cardId, verdict⟩] }
      | _ => none
  | .displayFeedback => match s.display with
      | .feedback _ => some { s with display := .semGive }
      | _ => none
  | .displaySemGive => when (s.display = .semGive)
      { s with display := .delay, mutex := semGive .display s.mutex }
  | .displayDelay => when (s.display = .delay) { s with display := .notifyTake }
  | _ => none

/-- Whose statement an action is. -/
inductive Actor where
  | handler
  | tcpClient
  | display
  deriving DecidableEq, Repr

def Action.actor : Action → Actor
  | .scan _ | .notifyDisplay | .notifyTcp => .handler
  | .tcpConnect _ | .tcpNotifyTake | .tcpSemTake _ | .tcpMemset | .tcpFormat | .tcpSend _
  | .tcpSemGive | .tcpDelay => .tcpClient
  | .displayStart | .displayNotifyTake | .displayFormat | .displayDraw | .displaySemTake _
  | .displayJudge | .displayFeedback | .displaySemGive | .displayDelay => .display

/-- The terminal after start-up: both tasks are created, the reader is armed, nobody owns the
mutex. -/
def terminal : Machine State Action where
  init :=
    { cardId := 0, cardIdStr := [], mutex := none, handler := .idle, display := .starting,
      displayValue := 0, tcp := .connecting, tcpValue := 0, scanned := [], sent := [], rounds := [] }
  step s a := match a.actor with
    | .handler => s.stepHandler a
    | .tcpClient => s.stepTcp a
    | .display => s.stepDisplay a

/-! ## The statements that carry a value -/

theorem stepTcp_send {s t : State} {err : ℤ} (h : s.stepTcp (.tcpSend err) = some t) :
    ∃ formatted, s.tcp = .send formatted ∧
      { s with
        tcp := if err < 0 then .returned else .semGive
        sent := s.sent ++ [⟨formatted, s.cardIdStr⟩] } = t := by
  simp only [State.stepTcp] at h
  split at h
  · rename_i formatted hpc
    exact ⟨formatted, hpc, Option.some.inj h⟩
  · cases h

theorem stepDisplay_semTake {s t : State} (h : s.stepDisplay (.displaySemTake true) = some t) :
    ∃ drawn, s.display = .semTake drawn ∧ s.mutex = none ∧
      { s with display := .judge drawn, mutex := some .display } = t := by
  simp only [State.stepDisplay] at h
  split at h
  · rename_i drawn hpc
    exact ⟨drawn, hpc, Machine.when_eq_some.mp h⟩
  · cases h

theorem stepDisplay_semTimeout {s t : State} (h : s.stepDisplay (.displaySemTake false) = some t) :
    ∃ drawn, s.display = .semTake drawn ∧ { s with display := .delay } = t := by
  simp only [State.stepDisplay] at h
  split at h
  · rename_i drawn hpc
    exact ⟨drawn, hpc, Option.some.inj h⟩
  · cases h

theorem stepDisplay_judge {s t : State} (h : s.stepDisplay .displayJudge = some t) :
    ∃ drawn, s.display = .judge drawn ∧
      { s with
        display := .feedback (cardIdJudge s.cardId cardCorrectId)
        rounds := s.rounds ++ [⟨drawn, s.cardId, cardIdJudge s.cardId cardCorrectId⟩] } = t := by
  simp only [State.stepDisplay] at h
  split at h
  · rename_i drawn hpc
    exact ⟨drawn, hpc, Option.some.inj h⟩
  · cases h

theorem stepDisplay_feedback {s t : State} (h : s.stepDisplay .displayFeedback = some t) :
    ∃ verdict, s.display = .feedback verdict ∧ { s with display := .semGive } = t := by
  simp only [State.stepDisplay] at h
  split at h
  · rename_i verdict hpc
    exact ⟨verdict, hpc, Option.some.inj h⟩
  · cases h

end CourseDesign.Terminal
