import CourseDesign.Voice.DrawBmp

/-!
# Where a picture appears

`lcd_draw_bmp` on a well-formed file, at a place where the picture fits the screen.

* `drawn_rows` — round `k` of the loop over the rows fills row `y_e - k`, the first round that of
  `y_e` itself, which is below the picture.
* `rows_one_too_low` — so a picture without padding appears one row too low.
* `places_iff` — no picture with a column appears where it was meant to.
-/

namespace CourseDesign.Voice

/-- The color of a pixel. -/
def color (p : Bmp.Pixel) : ℕ := rgb p.red.toNat p.green.toNat p.blue.toNat

/-- The frame buffer has the picture at `(x, y)`, and is otherwise what it was. -/
structure Placed (img : Bmp.Image) (x y : ℕ) (fb fb' : Framebuffer) : Prop where
  pixel : ∀ r < img.height, ∀ c < img.width,
    fb' ((y + r) * 800 + (x + c)) = color (img.pixel r c)
  frame : ∀ word, (∀ r < img.height, ∀ c < img.width, (y + r) * 800 + (x + c) ≠ word) →
    fb' word = fb word

/-- Whatever the frame buffer had, the picture is drawn there. -/
def Places (file : List UInt8) (img : Bmp.Image) (x y : ℕ) : Prop :=
  ∀ fb, ∃ fb', lcdDrawBmp x y file fb = .ok fb' ∧ Placed img x y fb fb'

/-! ## The rows on the screen -/

/-- Two places in a row of the screen. -/
theorem word_inj {y y' u u' : ℕ} (hu : u < 800) (hu' : u' < 800)
    (h : y * 800 + u = y' * 800 + u') : y = y' ∧ u = u' := by
  constructor
  · omega
  · omega

/-- Inside the columns of the screen, every point has its own word. -/
theorem pointWord_inj {x y : ℕ} {file : List UInt8} (hx : x + bmpWidth file ≤ 800) {n m : ℕ}
    (hn : n < pointCount file) (hm : m < pointCount file)
    (h : pointWord x y file m = pointWord x y file n) : m = n := by
  rw [pointCount] at hn hm
  have hw : 0 < bmpWidth file := Nat.pos_of_mul_pos_left (Nat.zero_lt_of_lt hn)
  have hrow : ∀ i, i < (bmpHeight file + 1) * bmpWidth file → i / bmpWidth file ≤ bmpHeight file :=
    fun i hi => Nat.le_of_lt_succ (Nat.div_lt_of_lt_mul (by rwa [Nat.mul_comm]))
  have hcol : ∀ i, x + i % bmpWidth file < 800 := by
    intro i
    have hmod := Nat.mod_lt i hw
    omega
  obtain ⟨hrows, hcols⟩ := word_inj (hcol m) (hcol n) h
  have hdiv : m / bmpWidth file = n / bmpWidth file := by
    have hm' := hrow m hm
    have hn' := hrow n hn
    omega
  have hmod : m % bmpWidth file = n % bmpWidth file := by omega
  rw [← Nat.div_add_mod m (bmpWidth file), hdiv, hmod, Nat.div_add_mod]

/-- **The rows on the screen.**  When nothing goes wrong, the `k`-th row that is read is the `k`-th
from below, counted from the row below the picture, and there is nothing else. -/
theorem drawn_rows {x y : ℕ} {file : List UInt8} {fb fb' : Framebuffer}
    (hdraw : lcdDrawBmp x y file fb = .ok fb') (hx : x + bmpWidth file ≤ 800) :
    (∀ k ≤ bmpHeight file, ∀ c < bmpWidth file,
      fb' ((y + bmpHeight file - k) * 800 + (x + c)) = pointColor file (k * bmpWidth file + c)) ∧
      ∀ word, (∀ k ≤ bmpHeight file, ∀ c < bmpWidth file,
        (y + bmpHeight file - k) * 800 + (x + c) ≠ word) → fb' word = fb word := by
  obtain ⟨-, -, rfl⟩ := lcdDrawBmp_iff.mp hdraw
  constructor
  · intro k hk c hc
    have hn : k * bmpWidth file + c < pointCount file := Bmp.cell_lt (Nat.lt_succ_of_le hk) hc
    have hword : (y + bmpHeight file - k) * 800 + (x + c) =
        pointWord x y file (k * bmpWidth file + c) := by
      obtain ⟨hrow, hcol⟩ := Bmp.cell_div_mod k hc
      rw [pointWord, hrow, hcol]
    rw [hword]
    exact Loop.written_of_injOn hn fun m hm => pointWord_inj hx hn hm
  · intro word hword
    refine Loop.written_of_ne fun n hn => ?_
    rw [pointCount] at hn
    have hw : 0 < bmpWidth file := Nat.pos_of_mul_pos_left (Nat.zero_lt_of_lt hn)
    exact hword (n / bmpWidth file)
      (Nat.le_of_lt_succ (Nat.div_lt_of_lt_mul (by rwa [Nat.mul_comm]))) (n % bmpWidth file)
      (Nat.mod_lt n hw)

/-! ## A well-formed file -/

section WellFormed

variable {d : Bmp.Depth} {img : Bmp.Image} {file : List UInt8} {x y : ℕ}
  (hfile : Bmp.IsFile d img file) (hx : x + img.width ≤ 800) (hy : y + img.height ≤ 480)
  (hdata : img.height * Bmp.stride d img.width ≤ fbSize)

include hfile hdata

theorem storedBytes_of_isFile : storedBytes file = img.height * Bmp.stride d img.width := by
  have hsize : fbSize < 2 ^ 32 := by decide
  rw [storedBytes_eq, hfile.length, Nat.add_sub_cancel_left, Nat.mod_eq_of_lt (by omega)]

/-- The bytes of a pixel are in `pbmp_buf` where they were in the file. -/
theorem pbmpBuf_of_isFile {r c k : ℕ} (hr : r < img.height) (hc : c < img.width) (hk : k < d.bytes) :
    pbmpBuf file ((img.height - 1 - r) * Bmp.stride d img.width + (c * d.bytes + k)) =
      (img.pixel r c).byte k := by
  have hbyte := hfile.pixel r hr c hc k hk
  rw [Bmp.offset] at hbyte
  rw [pbmpBuf, storedBytes_of_isFile hfile hdata, if_pos (Bmp.place_lt hr hc hk),
    List.getD_eq_getElem?_getD, List.getElem?_drop, hbyte, Option.getD_some]

include hx hy

/-- **A picture without padding appears one row too low.** -/
theorem rows_one_too_low (hpad : img.width * d.bytes % 4 = 0) {fb fb' : Framebuffer}
    (hdraw : lcdDrawBmp x y file fb = .ok fb') :
    ∀ r < img.height, ∀ c < img.width,
      fb' ((y + r + 1) * 800 + (x + c)) = color (img.pixel r c) := by
  intro r hr c hc
  obtain ⟨hwidth, hheight, hbytes⟩ := header_of_isFile hfile (by omega) (by omega)
  have hrow := (drawn_rows hdraw (by rw [hwidth]; exact hx)).1 (img.height - 1 - r)
    (by rw [hheight]; omega) c (by rw [hwidth]; exact hc)
  have hy' : y + img.height - (img.height - 1 - r) = y + r + 1 := by omega
  have hplace : ((img.height - 1 - r) * img.width + c) * d.bytes =
      (img.height - 1 - r) * Bmp.stride d img.width + (c * d.bytes + 0) := by
    rw [(Bmp.stride_eq_iff d img.width).mpr hpad]
    ring
  have hthree : ∀ k < 3, pbmpBuf file (((img.height - 1 - r) * img.width + c) * d.bytes + k) =
      (img.pixel r c).byte k := by
    intro k hk
    rw [hplace, Nat.add_assoc, Nat.add_assoc, Nat.zero_add]
    refine pbmpBuf_of_isFile hfile hdata hr hc (lt_of_lt_of_le hk ?_)
    cases d <;> decide
  have hblue := hthree 0 (by decide)
  rw [Nat.add_zero] at hblue
  rw [hwidth, hheight, hy', pointColor, hbytes, hthree 2 (by decide), hthree 1 (by decide),
    hblue] at hrow
  exact hrow

/-- **Placement, exactly.**  For every well-formed picture, drawn anywhere on the screen, it appears
where it was meant to and nothing else changes if and only if it has no column. -/
theorem places_iff : Places file img x y ↔ img.width = 0 := by
  obtain ⟨hwidth, hheight, -⟩ := header_of_isFile hfile (by omega) (by omega)
  constructor
  · intro hplaces
    by_contra hne
    have hw : 0 < bmpWidth file := by omega
    -- The row below the picture is drawn with the first row that is read.
    obtain ⟨fb', hdraw, hplaced⟩ := hplaces fun _ => pointColor file 0 + 1
    have hcolor := (drawn_rows hdraw (by rw [hwidth]; exact hx)).1 0 (Nat.zero_le _) 0 hw
    rw [Nat.zero_mul, hheight] at hcolor
    have hframe := hplaced.frame ((y + img.height - 0) * 800 + (x + 0)) (fun r hr c hc => by omega)
    rw [hcolor] at hframe
    exact absurd hframe (by simp)
  · intro hzero fb
    refine ⟨fb, lcdDrawBmp_iff.mpr ⟨?_, ?_, ?_⟩, ?_, fun _ _ => rfl⟩
    · rw [storedBytes_of_isFile hfile hdata]
      exact hdata
    · intro n hn
      rw [pointCount, hwidth, hzero, Nat.mul_zero] at hn
      exact absurd hn (Nat.not_lt_zero n)
    · rw [pointCount, hwidth, hzero, Nat.mul_zero, Loop.written]
    · intro r _ c hc
      rw [hzero] at hc
      exact absurd hc (Nat.not_lt_zero c)

end WellFormed

/-- A picture without a column is placed, and one of six points in the middle of the screen is
not. -/
theorem empty_picture_placed :
    Places (Bmp.encode .bits24 (plain 0 1 ⟨0, 0, 0, 0⟩)) (plain 0 1 ⟨0, 0, 0, 0⟩) 0 0 ∧
      ¬ Places (Bmp.encode .bits24 (plain 3 2 ⟨9, 8, 7, 0⟩)) (plain 3 2 ⟨9, 8, 7, 0⟩) 400 240 := by
  constructor
  · exact (places_iff (Bmp.isFile_encode .bits24 (by decide) (by decide)) (by decide) (by decide)
      (by decide)).mpr rfl
  · intro hplaces
    have hwidth := (places_iff (Bmp.isFile_encode .bits24 (by decide) (by decide)) (by decide)
      (by decide) (by decide)).mp hplaces
    exact absurd hwidth (by decide)

/-- A white point, drawn at the origin: the point there is black afterwards. -/
theorem white_point_not_placed :
    ¬ Places (Bmp.encode .bits24 (plain 1 1 ⟨255, 255, 255, 0⟩)) (plain 1 1 ⟨255, 255, 255, 0⟩)
      0 0 := by
  intro hplaces
  obtain ⟨fb', hdraw, hplaced⟩ := hplaces fun _ => 7
  have hwhite : fb' 0 = color ⟨255, 255, 255, 0⟩ := hplaced.pixel 0 (by decide) 0 (by decide)
  have hblack : (lcdDrawBmp 0 0 (Bmp.encode .bits24 (plain 1 1 ⟨255, 255, 255, 0⟩))
      fun _ => 7).map (fun fb => fb 0) = .ok 0 := by
    decide +kernel
  rw [hdraw] at hblack
  have hzero : fb' 0 = 0 := Except.ok.inj hblack
  rw [hzero] at hwhite
  exact absurd hwhite (by decide)

end CourseDesign.Voice
