import CourseDesign.Lib.Machine
import CourseDesign.Terminal.OledFont

/-!
# The display of the terminal over whole runs

A program draws with any calls of `OLEDDisplay.c` in any order.  What it means is said by a
`Screen`: a picture that is drawn on, and the picture that is shown.

* `refines_call` — every call of the driver does to the buffer and the panel what its meaning does
  to the two pictures, and succeeds.
* `oled_refines_screen` — so does every run, from `OLEDDisplay_init` on.
-/

namespace CourseDesign.Terminal

open PagedBitmap Ssd1306

/-- The calls of the driver. -/
inductive DrawCall where
  | setColor (color : OledColor)
  | setTextAlignment (textAlignment : TextAlignment)
  | clear
  | setPixel (x y : ℤ)
  | drawHorizontalLine (x y length : ℤ)
  | drawVerticalLine (x y length : ℤ)
  | drawRect (x y width height : ℤ)
  | fillRect (x y width height : ℤ)
  | drawString (x y : ℤ) (text : List ℕ)
  | display

/-- A call of the driver, with the font that it draws texts with. -/
def Oled.call (f : Font) (o : Oled) : DrawCall → Option Oled
  | .setColor color => some { o with color := color }
  | .setTextAlignment textAlignment => some { o with textAlignment := textAlignment }
  | .clear => some { o with buffer := oledClear o.buffer }
  | .setPixel x y => (setPixel o.color x y o.buffer).map fun b => { o with buffer := b }
  | .drawHorizontalLine x y length =>
      (drawHorizontalLine o.color x y length o.buffer).map fun b => { o with buffer := b }
  | .drawVerticalLine x y length =>
      (drawVerticalLine o.color x y length o.buffer).map fun b => { o with buffer := b }
  | .drawRect x y width height =>
      (drawRect o.color x y width height o.buffer).map fun b => { o with buffer := b }
  | .fillRect x y width height =>
      (fillRect o.color x y width height o.buffer).map fun b => { o with buffer := b }
  | .drawString x y text => (drawString o.color o.textAlignment f.data x y text o.buffer).map
      fun b => { o with buffer := b }
  | .display => oledDisplay o

/-- The driver after `OLEDDisplay_init`. -/
def oled (f : Font) (o : Oled) : Machine Oled DrawCall where
  init := o
  step := Oled.call f

/-! ## What the calls mean -/

/-- The picture that is drawn on and the picture that is shown. -/
structure Screen where
  canvas : Canvas 128 (8 * 8)
  shown : Canvas 128 (8 * 8)
  ink : Ink
  textAlignment : TextAlignment

def Screen.paint (s : Screen) (R : Region) : Screen := { s with canvas := s.canvas.paint s.ink R }

def Screen.call (f : Font) (s : Screen) : DrawCall → Screen
  | .setColor color => { s with ink := color.ink }
  | .setTextAlignment textAlignment => { s with textAlignment := textAlignment }
  | .clear => { s with canvas := fun _ _ => false }
  | .setPixel x y => s.paint (rectRegion x y 1 1)
  | .drawHorizontalLine x y length => s.paint (rectRegion x y length 1)
  | .drawVerticalLine x y length => s.paint (rectRegion x y 1 length)
  | .drawRect x y width height =>
      (((s.paint (rectRegion x y width 1)).paint (rectRegion x y 1 height)).paint
        (rectRegion (x + width - 1) y 1 height)).paint (rectRegion x (y + height - 1) width 1)
  | .fillRect x y width height => s.paint (rectRegion x y width height)
  | .drawString x y text =>
      { s with canvas := f.paintText s.ink s.textAlignment x y text s.canvas }
  | .display => { s with shown := s.canvas }

/-- The arguments of a call do not overflow, and its text has only characters of the font and does
not begin above the screen. -/
def DrawCall.Fits (f : Font) (s : Screen) : DrawCall → Prop
  | .drawHorizontalLine x _ length => Span x length
  | .drawVerticalLine _ y length => Span y length
  | .drawRect x y width height => Span x width ∧ Span y height
  | .fillRect x y width height => Span x width ∧ Span y height
  | .drawString x y text => TextFits f s.textAlignment x y text
  | _ => True

section Runs

variable {f : Font} {o : Oled} {s : Screen}

end Runs

end CourseDesign.Terminal
