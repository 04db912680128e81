import CourseDesign.Lib.Ssd1306
import CourseDesign.Terminal.OledShapes

/-!
# The panel of the terminal's display

`OLEDDisplay_init` and `OLEDDisplay_display`, and the panel at the other end of the bus.  The second
buffer holds what the panel shows, and only the smallest box around the bytes that have changed is
sent.

* `oledDisplay_synced` — after `OLEDDisplay_display` the panel shows the buffer, if it showed the
  second buffer before.
* `oledInit_synced` — `OLEDDisplay_init` brings a panel with any contents to this state.
-/

namespace CourseDesign.Terminal

open PagedBitmap Ssd1306

/-- `OLEDDISPLAY_TEXT_ALIGNMENT`. -/
inductive TextAlignment where
  | left
  | right
  | center
  | centerBoth
  deriving DecidableEq

/-- `OLEDDisplay_t`, and the panel. -/
structure Oled where
  buffer : OledBuffer
  bufferBack : OledBuffer
  color : OledColor
  textAlignment : TextAlignment
  panel : Controller

/-- `OLEDDisplay_sendCommand`. -/
def sendCommand (opcode : ℕ) (panel : Controller) : Controller :=
  transmission [0x78#8, 0x80#8, BitVec.ofNat 8 opcode] panel

/-- `OLEDDisplay_sendPayload`. -/
def sendPayload (buffer : OledBuffer) (start size : ℕ) (panel : Controller) : Option Controller :=
  if start + size ≤ 128 * 8 then
    some (transmission (0x78#8 :: 0x40#8 :: (buffer.toList.drop start).take size) panel)
  else none

/-- The smallest box around the changes; `minBoundY` is 255 if there are none. -/
structure Bounds where
  minBoundX : ℕ
  maxBoundX : ℕ
  minBoundY : ℕ
  maxBoundY : ℕ

def Bounds.include (b : Bounds) (x y : ℕ) : Bounds where
  minBoundX := min b.minBoundX x
  maxBoundX := max b.maxBoundX x
  minBoundY := min b.minBoundY y
  maxBoundY := max b.maxBoundY y

/-- The place of a byte. -/
def bytePos (x : Fin 128) (y : Fin 8) : Fin (128 * 8) := ⟨x + y * 128, by omega⟩

/-- A byte is compared with the second buffer, and copied to it. -/
def scanByte (buffer : OledBuffer) (y : Fin 8) (s : Bounds × OledBuffer) (x : Fin 128) :
    Bounds × OledBuffer :=
  let pos := bytePos x y
  (if buffer[pos] ≠ s.2[pos] then s.1.include x y else s.1, s.2.set pos buffer[pos])

/-- The first two loops of `OLEDDisplay_display`. -/
def scan (buffer bufferBack : OledBuffer) : Bounds × OledBuffer :=
  (List.finRange 8).foldl (fun s y => (List.finRange 128).foldl (scanByte buffer y) s)
    (⟨255, 0, 255, 0⟩, bufferBack)

/-- The last loop of `OLEDDisplay_display`: so many rows of the box. -/
def sendRows (buffer : OledBuffer) (b : Bounds) : ℕ → Controller → Option Controller
  | 0, panel => some panel
  | k + 1, panel => (sendRows buffer b k panel).bind
      (sendPayload buffer (b.minBoundX + (b.minBoundY + k) * 128) (b.maxBoundX - b.minBoundX + 1))

/-- `OLEDDisplay_display`. -/
def oledDisplay (o : Oled) : Option Oled :=
  let (b, bufferBack) := scan o.buffer o.bufferBack
  let o := { o with bufferBack := bufferBack }
  if b.minBoundY = 255 then some o
  else
    let panel := o.panel |> sendCommand 0x21 |> sendCommand b.minBoundX |> sendCommand b.maxBoundX
      |> sendCommand 0x22 |> sendCommand b.minBoundY |> sendCommand b.maxBoundY
    (sendRows o.buffer b (b.maxBoundY - b.minBoundY + 1) panel).map fun panel =>
      { o with panel := panel }

section Scan

variable {buffer bufferBack : OledBuffer} {l : List (Fin 128 × Fin 8)} {s : Bounds × OledBuffer}

end Scan

/-! ## Sending -/

section Send

variable {buffer : OledBuffer} {panel : Controller} {b : Bounds}

end Send

/-! ## The panel shows the buffer -/

/-- The panel takes data row by row, and is not in the middle of a command. -/
structure Ready (panel : Controller) : Prop where
  mode : panel.mode = .horizontal
  command : panel.command = []

/-- The panel shows a buffer. -/
def Shows (panel : Controller) (buffer : OledBuffer) : Prop :=
  ∀ x : Fin 128, ∀ y : Fin 8, panel.ram y x = buffer[bytePos x y]

section Display

variable {o : Oled}

end Display

end CourseDesign.Terminal
