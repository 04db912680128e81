import CourseDesign.Lib.LittleEndian

/-!
# Uncompressed bitmaps

The file format of a bottom-up bitmap with a header of 54 bytes and 24 or 32 bits a pixel: the last
row of the image comes first, a pixel is blue, green, red and perhaps a fourth byte, and each row is
padded to a multiple of four bytes.

* `forall_cells_iff` — the cells of all rows are all the cells.
* `IsFile` — a file is one of an image; what the padding holds is left open.
* `isFile_encode` — every image that a header can describe has a file.
-/

namespace Bmp

/-! ## Rows of cells

The cell in row `r` and column `c` is at `r * w + c`, for rows of `w` cells. -/

section Cells

variable {w h r c : ℕ}

/-- A row ends before a later one begins. -/
theorem row_end_le (hr : r < h) (w : ℕ) : r * w + w ≤ h * w :=
  calc r * w + w = (r + 1) * w := (Nat.succ_mul r w).symm
    _ ≤ h * w := Nat.mul_le_mul_right w hr

theorem cell_lt (hr : r < h) (hc : c < w) : r * w + c < h * w :=
  lt_of_lt_of_le (Nat.add_lt_add_left hc _) (row_end_le hr w)

/-- The row and the column of a cell. -/
theorem cell_div_mod (r : ℕ) (hc : c < w) : (r * w + c) / w = r ∧ (r * w + c) % w = c :=
  (Nat.div_mod_unique (Nat.zero_lt_of_lt hc)).mpr ⟨by ring, hc⟩

/-- The cells of all rows are all the cells. -/
theorem forall_cells_iff {P : ℕ → Prop} :
    (∀ r < h, ∀ c < w, P (r * w + c)) ↔ ∀ n < h * w, P n := by
  constructor
  · intro hall n hn
    have hw : 0 < w := Nat.pos_of_mul_pos_left (Nat.zero_lt_of_lt hn)
    have hcell := hall (n / w) (Nat.div_lt_of_lt_mul (by rwa [Nat.mul_comm])) (n % w)
      (Nat.mod_lt n hw)
    rwa [Nat.div_add_mod'] at hcell
  · intro hall r hr c hc
    exact hall _ (cell_lt hr hc)

end Cells

/-! ## Images and files -/

/-- A pixel; `alpha` is the fourth byte. -/
structure Pixel where
  blue : UInt8
  green : UInt8
  red : UInt8
  alpha : UInt8
  deriving DecidableEq, Repr

/-- The bytes of a pixel in the order of the file. -/
def Pixel.byte (p : Pixel) : ℕ → UInt8
  | 0 => p.blue
  | 1 => p.green
  | 2 => p.red
  | _ => p.alpha

/-- An image; `pixel r c` is in the `r`-th row from the top and the `c`-th column. -/
structure Image where
  width : ℕ
  height : ℕ
  pixel : ℕ → ℕ → Pixel

inductive Depth where
  | bits24
  | bits32
  deriving DecidableEq, Repr

/-- Bytes a pixel. -/
def Depth.bytes : Depth → ℕ
  | bits24 => 3
  | bits32 => 4

/-- Bytes a row, its padding included. -/
def stride (d : Depth) (width : ℕ) : ℕ := (width * d.bytes + 3) / 4 * 4

/-- Where the file has byte `k` of a pixel, for an image of this width and height. -/
def offset (d : Depth) (width height r c k : ℕ) : ℕ :=
  54 + ((height - 1 - r) * stride d width + (c * d.bytes + k))

/-- The file is one of the image. -/
structure IsFile (d : Depth) (img : Image) (file : List UInt8) : Prop where
  magic : file.take 2 = [0x42, 0x4D]
  offBits : LittleEndian.field file 10 4 = 54
  headerSize : LittleEndian.field file 14 4 = 40
  width : LittleEndian.field file 18 4 = img.width
  height : LittleEndian.field file 22 4 = img.height
  planes : LittleEndian.field file 26 2 = 1
  bits : LittleEndian.field file 28 2 = 8 * d.bytes
  compression : LittleEndian.field file 30 4 = 0
  length : file.length = 54 + img.height * stride d img.width
  pixel : ∀ r < img.height, ∀ c < img.width, ∀ k < d.bytes,
    file[offset d img.width img.height r c k]? = some ((img.pixel r c).byte k)

theorem le_stride (d : Depth) (width : ℕ) : width * d.bytes ≤ stride d width := by
  rw [stride]
  omega

/-- A row needs no padding if and only if its bytes are a multiple of four. -/
theorem stride_eq_iff (d : Depth) (width : ℕ) :
    stride d width = width * d.bytes ↔ width * d.bytes % 4 = 0 := by
  rw [stride]
  omega

/-! ## A file for every image -/

/-- Byte `n` of the pixel data, with zeros for padding. -/
def dataByte (d : Depth) (img : Image) (n : ℕ) : UInt8 :=
  let r := img.height - 1 - n / stride d img.width
  let col := n % stride d img.width
  if col < img.width * d.bytes then (img.pixel r (col / d.bytes)).byte (col % d.bytes) else 0

/-- The fields of the header, from `bfType` to `biClrImportant`. -/
def header (d : Depth) (img : Image) : List (ℕ × ℕ) :=
  [(2, 0x4D42), (4, 54 + img.height * stride d img.width), (4, 0), (4, 54), (4, 40), (4, img.width),
    (4, img.height), (2, 1), (2, 8 * d.bytes), (4, 0), (4, 0), (4, 0), (4, 0), (4, 0), (4, 0)]

def encode (d : Depth) (img : Image) : List UInt8 :=
  LittleEndian.record (header d img) ++
    (List.range (img.height * stride d img.width)).map (dataByte d img)

theorem length_header (d : Depth) (img : Image) :
    (LittleEndian.record (header d img)).length = 54 :=
  LittleEndian.length_record _

/-- The bytes of a pixel are before the padding. -/
theorem byte_lt_stride {d : Depth} {width c k : ℕ} (hc : c < width) (hk : k < d.bytes) :
    c * d.bytes + k < stride d width :=
  lt_of_lt_of_le (cell_lt hc hk) (le_stride d width)

/-- The place of a pixel's byte is inside the rows. -/
theorem place_lt {d : Depth} {width height r c k : ℕ} (hr : r < height) (hc : c < width)
    (hk : k < d.bytes) :
    (height - 1 - r) * stride d width + (c * d.bytes + k) < height * stride d width :=
  cell_lt (by omega) (byte_lt_stride hc hk)

/-- The byte of a pixel is where the file format has it. -/
theorem dataByte_eq {d : Depth} {img : Image} {r c k : ℕ} (hr : r < img.height) (hc : c < img.width)
    (hk : k < d.bytes) :
    dataByte d img ((img.height - 1 - r) * stride d img.width + (c * d.bytes + k)) =
      (img.pixel r c).byte k := by
  have hcol : c * d.bytes + k < img.width * d.bytes := cell_lt hc hk
  obtain ⟨hrowDiv, hrowMod⟩ := cell_div_mod (img.height - 1 - r) (byte_lt_stride hc hk)
  obtain ⟨hcolDiv, hcolMod⟩ := cell_div_mod c hk
  have hrow : img.height - 1 - (img.height - 1 - r) = r := by omega
  rw [dataByte, hrowDiv, hrowMod, if_pos hcol, hcolDiv, hcolMod, hrow]

theorem Depth.bytes_lt (d : Depth) : 8 * d.bytes < 256 ^ 2 := by
  cases d <;> decide

/-- **Every image has a file**, if its width and height fit the header. -/
theorem isFile_encode (d : Depth) {img : Image} (hw : img.width < 2 ^ 32) (hh : img.height < 2 ^ 32) :
    IsFile d img (encode d img) where
  magic := rfl
  offBits := LittleEndian.field_record (i := 3) rfl (by decide) _
  headerSize := LittleEndian.field_record (i := 4) rfl (by decide) _
  width := LittleEndian.field_record (i := 5) rfl (by omega) _
  height := LittleEndian.field_record (i := 6) rfl (by omega) _
  planes := LittleEndian.field_record (i := 7) rfl (by decide) _
  bits := LittleEndian.field_record (i := 8) rfl d.bytes_lt _
  compression := LittleEndian.field_record (i := 9) rfl (by decide) _
  length := by rw [encode, List.length_append, length_header, List.length_map, List.length_range]
  pixel r hr c hc k hk := by
    rw [encode, offset, List.getElem?_append_right (by rw [length_header]; omega), length_header,
      Nat.add_sub_cancel_left, List.getElem?_map, List.getElem?_range (place_lt hr hc hk),
      Option.map_some, dataByte_eq hr hc hk]

end Bmp
