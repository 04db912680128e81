import CourseDesign.Drivers.Bitmap
import Mathlib.Tactic.Linarith

/-!
# Loading and drawing any file

`create_bitBmp_file` on any file, and `draw_lcd(lcd, 100, 100, bmp)` on what it returns, as the main
program of the viewer's test does it.

* `holds_iff`, `draws_iff`, `copies_iff` — the three parts of the property, each as a condition on
  the width, the height and the bit count.
* `pictureSafe_iff` — for which files everything stays inside.
* `missing_and_tall_pictures_unsafe` — for which it does not.

`buffer` has the size of the pixel data and is on the stack, so how many bytes the stack has left is
a parameter.
-/

namespace CourseDesign.Drivers

/-- The block has room for the words of the bitmap. -/
def Bitmap.Holds (bmp : Bitmap) : Prop := 4 * (bmp.bw * bmp.bh) ≤ (bmp.block.getD 0 : ℕ)

/-- The stack has room for `buffer`. -/
def BufferFits (stack : ℕ) (g : Garbage) (file : List UInt8) : Prop :=
  bufferSize (biWidth g file) (biHeight g file) (biBitCount g file) ≤ stack

/-- Loading the file and drawing the result stays inside every region, and the bitmap is as large as
it says. -/
def PictureSafe (stack : ℕ) (g : Garbage) (file : Option (List UInt8)) (fb : Memory) : Prop :=
  (∀ bytes ∈ file, IsBM g bytes → BufferFits stack g bytes) ∧
    ∃ r, createBitBmpFile g file = .ok r ∧ (∀ bmp ∈ r, bmp.Holds) ∧
      ∃ fb', drawLcd 100 100 r fb = .ok fb'

/-! ## The three parts -/

section Parts

variable {bw bh : ℤ}

/-- A block is as large as a product that fits an `int`, and too small for any other. -/
theorem malloc_wrap_iff (p : ℤ) :
    4 * p ≤ ((malloc (wrap (wrap p * 4))).getD 0 : ℕ) ↔ 4 * p < 2 ^ 31 := by
  rw [malloc]
  by_cases hneg : 0 ≤ wrap (wrap p * 4)
  · rw [if_pos hneg, Option.getD_some, Int.toNat_of_nonneg hneg]
    simp only [wrap] at hneg ⊢
    omega
  · rw [if_neg hneg, Option.getD_none]
    simp only [wrap] at hneg ⊢
    omega

theorem holds_iff (mem : Memory) :
    Bitmap.Holds { bw := bw, bh := bh, block := malloc (blockSize bw bh), mem := mem } ↔
      4 * (bw * bh) < 2 ^ 31 :=
  malloc_wrap_iff (bw * bh)

/-- The copy of row `i` of 32 bits a pixel. -/
def RowInside (bw bh : ℤ) (bits i : ℕ) : Prop :=
  CopyInside (malloc (blockSize bw bh)) (4 * wrap (i * bw)) (some (bufferSize bw bh bits))
    (rowStart bw bh bits i) (rowSize bw bits)

/-- The copy of pixel `j` in row `i` of 24 bits a pixel. -/
def PixelInside (bw bh : ℤ) (bits i j : ℕ) : Prop :=
  CopyInside (malloc (blockSize bw bh)) (4 * (wrap (i * bw) + j)) (some (bufferSize bw bh bits))
    (rowStart bw bh bits i + wrap (j * 3)) 3

/-- The copy of row `i` to the screen. -/
def DrawInside (bw bh : ℤ) (i : ℕ) : Prop :=
  CopyInside (some lcdBytes) (4 * (100 * 800 + 100 + i * 800)) (malloc (blockSize bw bh))
    (4 * (i * bw)) (toSize (wrap (bw * 4)))

/-- The copies of `create_bitBmp_file`. -/
theorem copies_iff (bits : ℕ) (buffer mem : Memory) :
    (∃ mem', copyRows bw bh bits buffer mem = .ok mem') ↔
      (bits / 8 = 4 → ∀ i < bh.toNat, RowInside bw bh bits i) ∧
      (bits / 8 = 3 → ∀ i < bh.toNat, ∀ j < bw.toNat, PixelInside bw bh bits i j) := by
  rw [copyRows]
  by_cases h4 : bits / 8 = 4
  · have hrows := Loop.exists_upTo_iff (n := bh.toNat) (c := RowInside bw bh bits)
      (fun i _ s => exists_memcpy_iff buffer s) mem
    rw [if_pos h4, hrows]
    simp [h4]
  · rw [if_neg h4]
    by_cases h3 : bits / 8 = 3
    · have hpixels := Loop.exists_upTo_iff (n := bh.toNat)
        (c := fun i => ∀ j < bw.toNat, PixelInside bw bh bits i j)
        (fun i _ s => Loop.exists_upTo_iff (c := PixelInside bw bh bits i)
          (fun j _ s => exists_memcpy_iff buffer s) s) mem
      rw [if_pos h3, hpixels]
      simp [h3]
    · simp [h3, h4]

/-- The copies of `draw_lcd`. -/
theorem draws_iff (mem fb : Memory) :
    (∃ fb', drawLcd 100 100
        (some { bw := bw, bh := bh, block := malloc (blockSize bw bh), mem := mem }) fb = .ok fb') ↔
      ∀ i < bh.toNat, DrawInside bw bh i :=
  Loop.exists_upTo_iff (c := DrawInside bw bh) (fun _ _ s => exists_memcpy_iff mem s) fb

end Parts

/-! ## Positive sizes -/

section Positive

variable {bw bh : ℤ} {bits : ℕ}

theorem malloc_blockSize (hp : 0 ≤ bw * bh) (hsize : 4 * (bw * bh) < 2 ^ 31) :
    malloc (blockSize bw bh) = some (4 * (bw * bh)).toNat := by
  have hblock : blockSize bw bh = 4 * (bw * bh) := by
    rw [blockSize, wrap_eq (z := bw * bh) (by omega) (by omega), wrap_eq (by omega) (by omega)]
    ring
  rw [malloc, hblock, if_pos (by omega)]

theorem rowSize_eq (hlow : 0 ≤ bw * bits) (hhigh : bw * bits < 2 ^ 31) :
    (rowSize bw bits : ℤ) = bw * bits / 8 := by
  rw [rowSize, wrap_eq (by omega) hhigh, Int.tdiv_eq_ediv_of_nonneg hlow,
    toUnsigned_eq (by omega) (by omega)]

theorem bufferSize_eq (hp : 0 ≤ bw * bh) (hsize : bw * bh < 2 ^ 31) (hlow : 0 ≤ bw * bh * bits)
    (hhigh : bw * bh * bits < 2 ^ 31) : (bufferSize bw bh bits : ℤ) = bw * bh * bits / 8 := by
  rw [bufferSize, wrap_eq (z := bw * bh) (by omega) hsize, wrap_eq (by omega) hhigh,
    Int.tdiv_eq_ediv_of_nonneg hlow, toUnsigned_eq (by omega) (by omega)]

/-- Rows that lie one below another inside the product. -/
theorem row_le {w h i : ℤ} (hw : 0 ≤ w) (hi : i < h) : i * w + w ≤ w * h := by
  have hmul : (i + 1) * w ≤ h * w := mul_le_mul_of_nonneg_right hi hw
  linarith [mul_comm w h]

/-- A picture that fits its block fits the screen from row and column 100 on if its last row does.
-/
theorem draws_pos_iff (hw : 0 < bw) (hh : 0 < bh) (hsize : 4 * (bw * bh) < 2 ^ 31) :
    (∀ i < bh.toNat, DrawInside bw bh i) ↔ 800 * (bh - 1) + bw ≤ 303900 := by
  have hle : bw ≤ bw * bh := le_mul_of_one_le_right hw.le hh
  have hbytes : (toSize (wrap (bw * 4)) : ℤ) = bw * 4 := by
    rw [wrap_eq (by omega) (by omega), toSize_eq (by omega) (by omega)]
  have hblock : ((4 * (bw * bh)).toNat : ℤ) = 4 * (bw * bh) := Int.toNat_of_nonneg (by omega)
  have hlcd : (lcdBytes : ℤ) = 1536000 := rfl
  simp only [DrawInside, CopyInside, malloc_blockSize (by omega) hsize, Inside, hbytes, hblock, hlcd]
  constructor
  · intro hall
    have hlast : (((bh - 1).toNat : ℕ) : ℤ) = bh - 1 := Int.toNat_of_nonneg (by omega)
    rcases hall (bh - 1).toNat (by omega) with hzero | ⟨⟨-, hscreen⟩, -⟩
    · omega
    · rw [hlast] at hscreen
      omega
  · intro hfits i hi
    have hi' : (i : ℤ) < bh := by omega
    have hrow := row_le hw.le hi'
    have hpos : 0 ≤ (i : ℤ) * bw := mul_nonneg (by omega) hw.le
    exact Or.inr ⟨⟨by omega, by omega⟩, by omega, by omega⟩

/-- The products of a picture that fits the screen are small. -/
theorem product_le (hh : 0 < bh) (hfits : 800 * (bh - 1) + bw ≤ 303900) :
    4 * (bw * bh) < 2 ^ 31 ∧ ∀ bits : ℕ, bits < 40 → bw * bh * bits < 2 ^ 31 := by
  have hmul : bw * bh ≤ (304700 - 800 * bh) * bh :=
    mul_le_mul_of_nonneg_right (by omega) hh.le
  have hp : bw * bh ≤ 29032200 := by nlinarith [sq_nonneg (2 * bh - 381)]
  refine ⟨by omega, fun bits hbits => ?_⟩
  have hall : bw * bh * bits ≤ 29032200 * 39 := mul_le_mul hp (by omega) (by omega) (by omega)
  omega

section Copies

variable (hw : 0 < bw) (hh : 0 < bh) (hbuf : bw * bh * bits < 2 ^ 31)

include hw hh hbuf

/-- The products are bounded by the largest of them. -/
theorem products_le (hbits : 24 ≤ bits) :
    bw ≤ bw * bh ∧ bw * 24 ≤ bw * bits ∧ bw * bits ≤ bw * bh * bits ∧ bw * bh * 24 < 2 ^ 31 := by
  have hle : bw ≤ bw * bh := le_mul_of_one_le_right hw.le hh
  have hpos : 0 ≤ bw * bh := hw.le.trans hle
  have hall : bw * bh * 24 ≤ bw * bh * bits := mul_le_mul_of_nonneg_left (by omega) hpos
  exact ⟨hle, mul_le_mul_of_nonneg_left (by omega) hw.le, mul_le_mul_of_nonneg_right hle (by omega),
    lt_of_le_of_lt hall hbuf⟩

/-- **Where the rows are in the buffer**, when no product wraps: one below another from its end. -/
theorem rows_eq (hbits : 24 ≤ bits) :
    (rowSize bw bits : ℤ) = bw * bits / 8 ∧ ∀ i : ℕ, (i : ℤ) < bh →
      (rowStart bw bh bits i : ℤ) = (bh - 1 - i) * (bw * bits / 8) ∧
        (rowStart bw bh bits i : ℤ) + rowSize bw bits ≤ bufferSize bw bh bits := by
  obtain ⟨hle, hlow, hrow, hsmall⟩ := products_le hw hh hbuf hbits
  have hrowSize : (rowSize bw bits : ℤ) = bw * bits / 8 := rowSize_eq (by omega) (by omega)
  have hbufferSize : (bufferSize bw bh bits : ℤ) = bw * bh * bits / 8 :=
    bufferSize_eq (by omega) (by omega) (by omega) hbuf
  refine ⟨hrowSize, fun i hi => ?_⟩
  have hq : 0 ≤ bw * bits / 8 := by omega
  have hall : bh * (bw * bits / 8) ≤ bw * bh * bits / 8 := by
    refine (Int.le_ediv_iff_mul_le (by decide)).mpr ?_
    have hmul : bh * (bw * bits / 8 * 8) ≤ bh * (bw * bits) :=
      mul_le_mul_of_nonneg_left (Int.ediv_mul_le _ (by decide)) hh.le
    linarith [mul_assoc bh (bw * bits / 8) 8, mul_assoc bw bh bits, mul_left_comm bh bw bits]
  have hend : (bh - 1 - i) * (bw * bits / 8) + bw * bits / 8 ≤ bh * (bw * bits / 8) := by
    have hmul : (bh - 1 - i + 1) * (bw * bits / 8) ≤ bh * (bw * bits / 8) :=
      mul_le_mul_of_nonneg_right (by omega) hq
    linarith
  have hpos : 0 ≤ (bh - 1 - i) * (bw * bits / 8) := mul_nonneg (by omega) hq
  have hstart : (rowStart bw bh bits i : ℤ) = (bh - 1 - i) * (bw * bits / 8) := by
    rw [rowStart, hrowSize, toUnsigned_eq hpos (by omega)]
  exact ⟨hstart, by omega⟩

/-- The block has room for every row. -/
theorem block_eq (hbits : 24 ≤ bits) :
    malloc (blockSize bw bh) = some (4 * (bw * bh)).toNat ∧
      ((4 * (bw * bh)).toNat : ℤ) = 4 * (bw * bh) ∧
      ∀ i : ℕ, (i : ℤ) < bh → wrap (i * bw) = i * bw ∧ 0 ≤ (i : ℤ) * bw ∧
        (i : ℤ) * bw + bw ≤ bw * bh := by
  obtain ⟨hle, -, -, hsmall⟩ := products_le hw hh hbuf hbits
  refine ⟨malloc_blockSize (by omega) (by omega), Int.toNat_of_nonneg (by omega), fun i hi => ?_⟩
  have hrow := row_le hw.le hi
  have hpos : 0 ≤ (i : ℤ) * bw := mul_nonneg (by omega) hw.le
  exact ⟨wrap_eq (by omega) (by omega), hpos, hrow⟩

/-- Rows of 32 bits a pixel: the bits above 32 must not fill a byte of the last row. -/
theorem rows_pos_iff (hbits : bits / 8 = 4) :
    (∀ i < bh.toNat, RowInside bw bh bits i) ↔ bw * (bits - 32) < 8 := by
  have hmany : 24 ≤ bits := by omega
  obtain ⟨hrowSize, hstart⟩ := rows_eq hw hh hbuf hmany
  obtain ⟨hmalloc, hblock, hplace⟩ := block_eq hw hh hbuf hmany
  have hmin : bw * 32 ≤ bw * bits := mul_le_mul_of_nonneg_left (by omega) hw.le
  have hsub : bw * ((bits : ℤ) - 32) = bw * bits - bw * 32 := mul_sub bw bits 32
  simp only [RowInside, CopyInside, hmalloc, Inside, hblock]
  constructor
  · intro hall
    have hlast : (((bh - 1).toNat : ℕ) : ℤ) = bh - 1 := Int.toNat_of_nonneg (by omega)
    obtain ⟨hint, -, -⟩ := hplace (bh - 1).toNat (by omega)
    have hprod : (bh - 1) * bw = bw * bh - bw := by ring
    rcases hall (bh - 1).toNat (by omega) with hzero | ⟨⟨-, hroom⟩, -⟩
    · omega
    · rw [hint, hlast, hprod] at hroom
      omega
  · intro hspare i hi
    obtain ⟨hint, hpos, hrow⟩ := hplace i (by omega)
    obtain ⟨-, hread⟩ := hstart i (by omega)
    rw [hint]
    exact Or.inr ⟨⟨by omega, by omega⟩, by omega, hread⟩

/-- Pixels of 24 bits stay inside. -/
theorem pixels_pos (hbits : bits / 8 = 3) {i j : ℕ} (hi : i < bh.toNat) (hj : j < bw.toNat) :
    PixelInside bw bh bits i j := by
  have hmany : 24 ≤ bits := by omega
  obtain ⟨hle, hmin, -, hsmall⟩ := products_le hw hh hbuf hmany
  obtain ⟨hrowSize, hstart⟩ := rows_eq hw hh hbuf hmany
  obtain ⟨hmalloc, hblock, hplace⟩ := block_eq hw hh hbuf hmany
  obtain ⟨hint, hpos, hrow⟩ := hplace i (by omega)
  obtain ⟨-, hread⟩ := hstart i (by omega)
  simp only [PixelInside, CopyInside, hmalloc, Inside, hblock]
  rw [hint, wrap_eq (z := (j : ℤ) * 3) (by omega) (by omega)]
  exact Or.inr ⟨⟨by omega, by omega⟩, by omega, by omega⟩

end Copies

end Positive

/-! ## Negative widths

A row of a negative width has `bw*4` bytes as an `int`, which may wrap to a positive number. -/

section Negative

variable {bw bh : ℤ} {bits : ℕ} (hw : bw < 0) (hmin : -2 ^ 31 ≤ bw) (hh : 0 < bh)

/-- Factors inside a product wrap to the same number. -/
theorem wrap_wrap_mul (p : ℤ) : wrap (wrap p * 4) = wrap (p * 4) := by
  simp only [wrap]
  omega

/-- The `size_t` of an `int` is the `int`, or more than there is. -/
theorem toSize_wrap (z : ℤ) :
    0 ≤ wrap z ∧ (toSize (wrap z) : ℤ) = wrap z ∨ wrap z < 0 ∧ 2 ^ 63 < (toSize (wrap z) : ℤ) := by
  simp only [toSize, wrap]
  omega

/-- Nothing lies in front of a region. -/
theorem not_inside_of_neg {region : Option ℕ} {offset : ℤ} {n : ℕ} (h : offset < 0) :
    ¬ Inside region offset n := by
  cases region with
  | none => exact id
  | some bytes =>
      rintro ⟨hfirst, -⟩
      omega

theorem blockSize_of_row_zero (hrow : wrap (bw * 4) = 0) : blockSize bw bh = 0 := by
  have hdvd : (bw * 4) % 2 ^ 32 = 0 := by
    simp only [wrap] at hrow
    omega
  obtain ⟨m, hm⟩ := Int.dvd_of_emod_eq_zero hdvd
  have hprod : bw * bh * 4 = 2 ^ 32 * (m * bh) :=
    calc bw * bh * 4 = bw * 4 * bh := by ring
      _ = 2 ^ 32 * (m * bh) := by rw [hm, mul_assoc]
  rw [blockSize, wrap_wrap_mul, hprod]
  simp only [wrap]
  omega

include hw hmin hh

theorem draws_neg_iff : (∀ i < bh.toNat, DrawInside bw bh i) ↔
    0 ≤ wrap (bw * 4) ∧ wrap (bw * 4) ≤ 1215600 ∧ (wrap (bw * 4) = 0 ∨ bh = 1) := by
  have hlcd : (lcdBytes : ℤ) = 1536000 := rfl
  constructor
  · intro hall
    have hsize := toSize_wrap (bw * 4)
    rcases hall 0 (by omega) with hzero | ⟨⟨-, hscreen⟩, -⟩
    · refine ⟨by omega, by omega, Or.inl (by omega)⟩
    · rw [hlcd] at hscreen
      refine ⟨by omega, by omega, ?_⟩
      by_contra hnot
      -- The second row would be read in front of the block.
      rcases hall 1 (by omega) with hzero | ⟨-, hread⟩
      · omega
      · have hfront : 4 * (((1 : ℕ) : ℤ) * bw) < 0 := by
          push_cast
          omega
        exact not_inside_of_neg hfront hread
  · rintro ⟨hlow, hhigh, hone⟩ i hi
    have hsize : (toSize (wrap (bw * 4)) : ℤ) = wrap (bw * 4) := by
      rcases toSize_wrap (bw * 4) with ⟨-, hsize⟩ | ⟨hneg, -⟩
      · exact hsize
      · omega
    rcases hone with hzero | rfl
    · exact Or.inl (by omega)
    · obtain rfl : i = 0 := by omega
      have hmalloc : malloc (blockSize bw 1) = some (wrap (bw * 4)).toNat := by
        rw [blockSize, wrap_wrap_mul, mul_one, malloc, if_pos hlow]
      refine Or.inr ⟨⟨by omega, by rw [hlcd]; omega⟩, ?_⟩
      rw [hmalloc]
      exact ⟨by omega, by omega⟩

/-- Under these conditions, a row of 32 bits a pixel must not be longer than a row of words. -/
theorem rows_neg_iff (hlow : 0 ≤ wrap (bw * 4)) (hone : wrap (bw * 4) = 0 ∨ bh = 1) :
    (∀ i < bh.toNat, RowInside bw bh bits i) ↔ (rowSize bw bits : ℤ) ≤ wrap (bw * 4) := by
  rcases hone with hzero | rfl
  · have hmalloc : malloc (blockSize bw bh) = some 0 := by
      rw [blockSize_of_row_zero hzero]
      rfl
    simp only [RowInside, CopyInside, hmalloc, Inside]
    constructor
    · intro hall
      rcases hall 0 (by omega) with hnone | ⟨hroom, -⟩
      · omega
      · omega
    · intro hnone i _
      exact Or.inl (by omega)
  · have hmalloc : malloc (blockSize bw 1) = some (wrap (bw * 4)).toNat := by
      rw [blockSize, wrap_wrap_mul, mul_one, malloc, if_pos hlow]
    have hbuffer : bufferSize bw 1 bits = rowSize bw bits := by
      rw [bufferSize, rowSize, mul_one, wrap_eq hmin (by omega)]
    have hstart : rowStart bw 1 bits 0 = 0 := by
      simp [rowStart, toUnsigned]
    have hdst : wrap ((0 : ℕ) * bw) = 0 := by
      simp [wrap]
    simp only [RowInside, CopyInside, hmalloc, Inside, hbuffer]
    constructor
    · intro hall
      rcases hall 0 (by omega) with hnone | ⟨⟨-, hroom⟩, -⟩
      · omega
      · omega
    · intro hroom i hi
      obtain rfl : i = 0 := by omega
      rw [hstart, hdst]
      exact Or.inr ⟨⟨by omega, by omega⟩, by omega, by omega⟩

end Negative

/-! ## Any file -/

/-- The width, height and bit count of a picture that is loaded and drawn with every access
inside. -/
structure Loadable (bw bh : ℤ) (bits : ℕ) : Prop where
  /-- Without a row nothing is copied, but the block must be as large as the product says. -/
  noRows : bh ≤ 0 → 4 * (bw * bh) < 2 ^ 31
  rows : 0 < bh → 0 < bw →
    800 * (bh - 1) + bw ≤ 303900 ∧ (bits / 8 = 4 → bw * (bits - 32) < 8)
  /-- A negative width whose row wraps to so many bytes. -/
  wrapped : 0 < bh → bw < 0 → 0 ≤ wrap (bw * 4) ∧ wrap (bw * 4) ≤ 1215600 ∧
    (wrap (bw * 4) = 0 ∨ bh = 1) ∧ (bits / 8 = 4 → (rowSize bw bits : ℤ) ≤ wrap (bw * 4))

/-- The block is large enough, and the copies of both functions stay inside. -/
def AllInside (bw bh : ℤ) (bits : ℕ) : Prop :=
  4 * (bw * bh) < 2 ^ 31 ∧
    ((bits / 8 = 4 → ∀ i < bh.toNat, RowInside bw bh bits i) ∧
      (bits / 8 = 3 → ∀ i < bh.toNat, ∀ j < bw.toNat, PixelInside bw bh bits i j)) ∧
    ∀ i < bh.toNat, DrawInside bw bh i

theorem allInside_rows {bw bh : ℤ} {bits : ℕ} (hh : 0 < bh) (hw : 0 < bw) :
    AllInside bw bh bits ↔
      800 * (bh - 1) + bw ≤ 303900 ∧ (bits / 8 = 4 → bw * (bits - 32) < 8) := by
  constructor
  · rintro ⟨hsize, ⟨hrows, -⟩, hdraws⟩
    have hfits := (draws_pos_iff hw hh hsize).mp hdraws
    refine ⟨hfits, fun h4 => ?_⟩
    have hbuf := (product_le hh hfits).2 bits (by omega)
    exact (rows_pos_iff hw hh hbuf h4).mp (hrows h4)
  · rintro ⟨hfits, hspare⟩
    obtain ⟨hsize, hbuf⟩ := product_le hh hfits
    exact ⟨hsize, ⟨fun h4 => (rows_pos_iff hw hh (hbuf bits (by omega)) h4).mpr (hspare h4),
      fun h3 i hi j hj => pixels_pos hw hh (hbuf bits (by omega)) h3 hi hj⟩,
      (draws_pos_iff hw hh hsize).mpr hfits⟩

theorem allInside_wrapped {bw bh : ℤ} {bits : ℕ} (hh : 0 < bh) (hw : bw < 0) (hmin : -2 ^ 31 ≤ bw) :
    AllInside bw bh bits ↔ 0 ≤ wrap (bw * 4) ∧ wrap (bw * 4) ≤ 1215600 ∧
      (wrap (bw * 4) = 0 ∨ bh = 1) ∧ (bits / 8 = 4 → (rowSize bw bits : ℤ) ≤ wrap (bw * 4)) := by
  rw [AllInside, draws_neg_iff hw hmin hh]
  constructor
  · rintro ⟨-, ⟨hrows, -⟩, hlow, hhigh, hone⟩
    exact ⟨hlow, hhigh, hone, fun h4 => (rows_neg_iff hw hmin hh hlow hone).mp (hrows h4)⟩
  · rintro ⟨hlow, hhigh, hone, hroom⟩
    have hneg : bw * bh < 0 := mul_neg_of_neg_of_pos hw hh
    refine ⟨by omega, ⟨fun h4 => (rows_neg_iff hw hmin hh hlow hone).mpr (hroom h4), ?_⟩, hlow, hhigh,
      hone⟩
    intro _ i _ j hj
    omega

/-- Without a row, or with rows of no pixel, nothing is copied. -/
theorem allInside_empty {bw bh : ℤ} {bits : ℕ} (hempty : bh ≤ 0 ∨ bw = 0) :
    AllInside bw bh bits ↔ 4 * (bw * bh) < 2 ^ 31 := by
  rw [AllInside, and_iff_left_iff_imp]
  intro _
  rcases hempty with hh | rfl
  · have hnone : ∀ i, ¬ i < bh.toNat := by omega
    exact ⟨⟨fun _ i hi => absurd hi (hnone i), fun _ i hi => absurd hi (hnone i)⟩,
      fun i hi => absurd hi (hnone i)⟩
  · refine ⟨⟨fun _ i _ => Or.inl ?_, fun _ i _ j hj => absurd hj (Nat.not_lt_zero j)⟩,
      fun i _ => Or.inl ?_⟩
    · simp [rowSize, wrap, toUnsigned]
    · simp [wrap, toSize]

theorem allInside_iff {bw bh : ℤ} {bits : ℕ} (hmin : -2 ^ 31 ≤ bw) :
    AllInside bw bh bits ↔ Loadable bw bh bits := by
  rcases le_or_gt bh 0 with hh | hh
  · rw [allInside_empty (Or.inl hh)]
    exact ⟨fun h => ⟨fun _ => h, fun hpos => by omega, fun hpos => by omega⟩, fun h => h.noRows hh⟩
  · rcases lt_trichotomy bw 0 with hw | hw | hw
    · rw [allInside_wrapped hh hw hmin]
      exact ⟨fun h => ⟨fun hle => by omega, fun _ hpos => by omega, fun _ _ => h⟩,
        fun h => h.wrapped hh hw⟩
    · rw [allInside_empty (Or.inr hw)]
      refine iff_of_true (by rw [hw]; omega) ⟨fun hle => by omega, fun _ hpos => by omega,
        fun _ hneg => by omega⟩
    · rw [allInside_rows hh hw]
      exact ⟨fun h => ⟨fun hle => by omega, fun _ _ => h, fun _ hneg => by omega⟩,
        fun h => h.rows hh hw⟩

/-- **Loading and drawing, exactly.**  For every file, there or not, of any length and content, and
whatever was on the stack and in the heap: the bitmap is as large as it says and no access leaves
its region if and only if the file is there, begins with `BM`, has a buffer that fits the stack, and
a loadable width, height and bit count. -/
theorem pictureSafe_iff (stack : ℕ) (g : Garbage) (file : Option (List UInt8)) (fb : Memory) :
    PictureSafe stack g file fb ↔ ∃ bytes, file = some bytes ∧ IsBM g bytes ∧
      BufferFits stack g bytes ∧
      Loadable (biWidth g bytes) (biHeight g bytes) (biBitCount g bytes) := by
  cases file with
  | none => simp [PictureSafe, createBitBmpFile, drawLcd]
  | some bytes =>
      by_cases hbm : IsBM g bytes
      · have hmin : -2 ^ 31 ≤ biWidth g bytes := by
          simp only [biWidth, wrap]
          omega
        have hload : Loadable (biWidth g bytes) (biHeight g bytes) (biBitCount g bytes) ↔
            ∃ r, createBitBmpFile g (some bytes) = .ok r ∧ (∀ bmp ∈ r, bmp.Holds) ∧
              ∃ fb', drawLcd 100 100 r fb = .ok fb' := by
          rw [← allInside_iff hmin, AllInside, ← copies_iff _ (bufferOf g bytes) g.startBmp]
          constructor
          · rintro ⟨hsize, ⟨mem, hmem⟩, hdraws⟩
            refine ⟨_, (createBitBmpFile_iff hbm).mpr ⟨mem, hmem, rfl⟩, fun bmp hbmp => ?_,
              (draws_iff mem fb).mpr hdraws⟩
            rw [← Option.some.inj hbmp]
            exact (holds_iff mem).mpr hsize
          · rintro ⟨r, hr, hholds, hdraw⟩
            obtain ⟨mem, hmem, rfl⟩ := (createBitBmpFile_iff hbm).mp hr
            exact ⟨(holds_iff mem).mp (hholds _ rfl), ⟨mem, hmem⟩, (draws_iff mem fb).mp hdraw⟩
        simp [PictureSafe, hbm, hload]
      · simp [PictureSafe, createBitBmpFile, drawLcd, hbm]

/-- One column of 381 white pixels. -/
def tallPicture : Bmp.Image where
  width := 1
  height := 381
  pixel _ _ := ⟨255, 255, 255, 0⟩

/-- A file that is not there is drawn as `NULL`, and the last row of the tall picture is below the
screen. -/
theorem missing_and_tall_pictures_unsafe : ¬ PictureSafe 8388608 zeroed none (fun _ => 0) ∧
    ¬ PictureSafe 8388608 zeroed (some (Bmp.encode .bits32 tallPicture)) (fun _ => 0) := by
  constructor
  · rintro ⟨-, r, hr, -, hdraw⟩
    simp only [createBitBmpFile, Except.ok.injEq] at hr
    simp [← hr, drawLcd] at hdraw
  · rintro ⟨-, r, hr, -, hdraw⟩
    obtain ⟨hbm, hbw, hbh, -⟩ := header_of_isFile zeroed
      (Bmp.isFile_encode .bits32 (show tallPicture.width < 2 ^ 32 by decide) (by decide))
    obtain ⟨mem, -, rfl⟩ := (createBitBmpFile_iff hbm).mp hr
    have hw : wrap tallPicture.width = 1 := wrap_eq (by decide) (by decide)
    have hh : wrap tallPicture.height = 381 := wrap_eq (by decide) (by decide)
    rw [hbw, hbh, hw, hh] at hdraw
    have hrow : DrawInside 1 381 380 := (draws_iff mem _).mp hdraw 380 (by decide)
    exact absurd hrow (by unfold DrawInside CopyInside; decide)

end CourseDesign.Drivers
