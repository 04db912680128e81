import CourseDesign.Drivers.BitmapBounds

/-!
# What a loaded bitmap shows

`create_bitBmp_file` on a well-formed file.  Both branches take the rows to be one after another
without padding, and the one for 24 bits writes three bytes of each word.

* `exists_copyRows` — what the words hold, for both depths.
* `colours_of_no_padding` — the colours are right where the rows need no padding.
* `decodes_iff` — which files are decoded.
-/

namespace CourseDesign.Drivers

/-! ## The copies, byte by byte -/

/-- The rows above row `i` and the first `j` pixels of row `i` are copied from rows without padding,
the last one first. -/
def Copied (d : Bmp.Depth) (w h i j : ℕ) (buffer mem : Memory) : Prop :=
  ∀ r, ∀ c < w, ∀ k < d.bytes, (r < i ∨ r = i ∧ c < j) →
    mem (4 * (r * w + c) + k) = buffer ((h - 1 - r) * (w * d.bytes) + (c * d.bytes + k))

/-- The fourth byte of every word is still what it was. -/
def FourthKept (mem mem' : Memory) : Prop := ∀ n, mem' (4 * n + 3) = mem (4 * n + 3)

theorem bits_ge (d : Bmp.Depth) : 24 ≤ 8 * d.bytes := by
  cases d <;> decide

section Copies

variable {d : Bmp.Depth} {w h : ℕ} (hw : 0 < w) (hh : 0 < h)

include hw hh

/-- The sizes and places of the rows as natural numbers. -/
theorem places_eq (hsize : w * h * (8 * d.bytes) < 2 ^ 31) {i : ℕ} (hi : i < h) :
    rowSize w (8 * d.bytes) = w * d.bytes ∧
    rowStart w h (8 * d.bytes) i = (h - 1 - i) * (w * d.bytes) ∧
    wrap ((i : ℤ) * w) = ((i * w : ℕ) : ℤ) := by
  have hbuf : (w : ℤ) * h * ((8 * d.bytes : ℕ) : ℤ) < 2 ^ 31 := by exact_mod_cast hsize
  have hrow : (w : ℤ) * ((8 * d.bytes : ℕ) : ℤ) / 8 = ((w * d.bytes : ℕ) : ℤ) := by
    have hprod : (w : ℤ) * ((8 * d.bytes : ℕ) : ℤ) = 8 * ((w * d.bytes : ℕ) : ℤ) := by
      push_cast
      ring
    rw [hprod, Int.mul_ediv_cancel_left _ (by decide)]
  obtain ⟨hrowSize, hstart⟩ := rows_eq (by omega) (by omega) hbuf (bits_ge d)
  obtain ⟨-, -, hplace⟩ := block_eq (by omega) (by omega) hbuf (bits_ge d)
  obtain ⟨hint, -, -⟩ := hplace i (by omega)
  obtain ⟨hrowStart, -⟩ := hstart i (by omega)
  refine ⟨by omega, ?_, ?_⟩
  · have hlast : ((h - 1 - i : ℕ) : ℤ) = (h : ℤ) - 1 - i := by omega
    rw [hrow, ← hlast] at hrowStart
    exact_mod_cast hrowStart
  · rw [hint]
    push_cast
    rfl

/-- One row of 32 bits a pixel. -/
theorem row_step (hsize : w * h * 32 < 2 ^ 31) {i : ℕ} (hi : i < h) {buffer mem : Memory}
    (hcopied : Copied .bits32 w h i 0 buffer mem) :
    ∃ mem', memcpy (malloc (blockSize w h)) (4 * wrap (i * w)) (some (bufferSize w h 32))
        (rowStart w h 32 i) (rowSize w 32) buffer mem = .ok mem' ∧
      Copied .bits32 w h (i + 1) 0 buffer mem' := by
  have hbuf : (w : ℤ) * h * ((32 : ℕ) : ℤ) < 2 ^ 31 := by exact_mod_cast hsize
  have hinside : RowInside w h 32 i :=
    (rows_pos_iff (by omega) (by omega) hbuf (by decide)).mpr (by simp) i hi
  obtain ⟨hrowSize, hrowStart, hint⟩ := places_eq (d := .bits32) hw hh hsize hi
  have hdst : (4 * wrap ((i : ℤ) * w)).toNat = 4 * (i * w) := by
    rw [hint]
    omega
  have hsrc : rowStart w h 32 i = (h - 1 - i) * (w * 4) := hrowStart
  have hlen : rowSize w 32 = w * 4 := hrowSize
  refine ⟨_, memcpy_iff.mpr ⟨hinside, rfl⟩, ?_⟩
  rw [hdst, hlen, hsrc, Int.toNat_natCast]
  rintro r c hc k hk (hr | ⟨-, hnone⟩)
  · have hk4 : k < 4 := hk
    rw [store_load_apply]
    rcases Nat.lt_succ_iff_lt_or_eq.mp hr with habove | rfl
    · have hend := Bmp.row_end_le habove w
      rw [if_neg (by omega)]
      exact hcopied r c hc k hk (Or.inl habove)
    · have hplace : 4 * (r * w + c) + k - 4 * (r * w) = c * 4 + k := by omega
      rw [if_pos (by omega), hplace]
      rfl
  · exact absurd hnone (Nat.not_lt_zero c)

/-- One pixel of 24 bits. -/
theorem pixel_step (hsize : w * h * 24 < 2 ^ 31) {i j : ℕ} (hi : i < h) (hj : j < w)
    {buffer mem mem' : Memory} (hcopied : Copied .bits24 w h i j buffer mem')
    (hkept : FourthKept mem mem') :
    ∃ mem'', memcpy (malloc (blockSize w h)) (4 * (wrap (i * w) + j)) (some (bufferSize w h 24))
        (rowStart w h 24 i + wrap (j * 3)) 3 buffer mem' = .ok mem'' ∧
      Copied .bits24 w h i (j + 1) buffer mem'' ∧ FourthKept mem mem'' := by
  have hbuf : (w : ℤ) * h * ((24 : ℕ) : ℤ) < 2 ^ 31 := by exact_mod_cast hsize
  have hinside : PixelInside w h 24 i j :=
    pixels_pos (by omega) (by omega) hbuf (by decide) (by omega) (by omega)
  obtain ⟨-, hrowStart, hint⟩ := places_eq (d := .bits24) hw hh hsize hi
  obtain ⟨hle, -, -, hsmall⟩ := products_le (show (0 : ℤ) < w by omega) (show (0 : ℤ) < h by omega)
    hbuf (by decide)
  have hdst : (4 * (wrap ((i : ℤ) * w) + j)).toNat = 4 * (i * w + j) := by
    rw [hint]
    omega
  have hsrc : rowStart w h 24 i = (h - 1 - i) * (w * 3) := hrowStart
  have hfrom : (((h - 1 - i) * (w * 3) : ℕ) + wrap ((j : ℤ) * 3)).toNat =
      (h - 1 - i) * (w * 3) + j * 3 := by
    rw [wrap_eq (by omega) (by omega)]
    omega
  refine ⟨_, memcpy_iff.mpr ⟨hinside, rfl⟩, ?_⟩
  rw [hdst, hsrc, hfrom]
  constructor
  · refine filled_store hcopied (by decide) hj fun k _ => ?_
    rw [Nat.add_assoc]
    rfl
  · intro n
    rw [store_load_apply, if_neg (by omega)]
    exact hkept n

/-- **The words of a loaded file**, for both depths. -/
theorem exists_copyRows (hsize : w * h * (8 * d.bytes) < 2 ^ 31) (buffer mem : Memory) :
    ∃ mem', copyRows w h (8 * d.bytes) buffer mem = .ok mem' ∧
      Copied d w h h 0 buffer mem' ∧ (d = .bits24 → FourthKept mem mem') := by
  cases d with
  | bits32 =>
      obtain ⟨mem', hmem', hcopied⟩ := Loop.upTo_of_invariant
        (I := fun i s => Copied .bits32 w h i 0 buffer s)
        (fun i hi s hs => row_step hw hh hsize hi hs) (s := mem) filled_zero
      exact ⟨mem', hmem', hcopied, fun h24 => Bmp.Depth.noConfusion h24⟩
  | bits24 =>
      obtain ⟨mem', hmem', hcopied, hkept⟩ := Loop.upTo_cells_of_invariant
        (I := fun i j s => Copied .bits24 w h i j buffer s ∧ FourthKept mem s)
        (fun i hi j hj s hs => pixel_step hw hh hsize hi hj hs.1 hs.2)
        (fun i s hs => ⟨filled_row hs.1, hs.2⟩) (s := mem) ⟨filled_zero, fun n => rfl⟩
      exact ⟨mem', hmem', hcopied, fun _ => hkept⟩

end Copies

/-! ## Well-formed files -/

/-- The bitmap has the size and the colours of the image, and these fourth bytes. -/
structure Bitmap.Shows (bmp : Bitmap) (img : Bmp.Image) (fourth : ℕ → ℕ → UInt8) : Prop where
  bw : bmp.bw = img.width
  bh : bmp.bh = img.height
  colours : ∀ r < img.height, ∀ c < img.width, ∀ k < 3,
    bmp.mem (4 * (r * img.width + c) + k) = (img.pixel r c).byte k
  fourth : ∀ r < img.height, ∀ c < img.width,
    bmp.mem (4 * (r * img.width + c) + 3) = fourth r c

/-- Whatever was in memory before, the file is loaded as one bitmap, which shows the image; its
fourth bytes are those of the file if the file has them. -/
def Decodes (d : Bmp.Depth) (img : Bmp.Image) (file : List UInt8) : Prop :=
  ∃ fourth : ℕ → ℕ → UInt8,
    (d = .bits32 → ∀ r < img.height, ∀ c < img.width, fourth r c = (img.pixel r c).alpha) ∧
    ∀ g, ∃ bmp, createBitBmpFile g (some file) = .ok (some bmp) ∧ bmp.Shows img fourth

section Files

variable {d : Bmp.Depth} {img : Bmp.Image} {file : List UInt8} (hfile : Bmp.IsFile d img file)
  (hw : 0 < img.width) (hh : 0 < img.height)
  (hsize : img.width * img.height * (8 * d.bytes) < 2 ^ 31)

include hfile hw hh hsize

/-- The file is loaded with its width and height. -/
theorem exists_load (g : Garbage) : ∃ bmp, createBitBmpFile g (some file) = .ok (some bmp) ∧
    (bmp.bw = img.width ∧ bmp.bh = img.height) ∧
    Copied d img.width img.height img.height 0 (bufferOf g file) bmp.mem ∧
    (d = .bits24 → FourthKept g.startBmp bmp.mem) := by
  obtain ⟨hbm, hbw, hbh, hbits⟩ := header_of_isFile g hfile
  have hprod : img.width * img.height * 24 < 2 ^ 31 :=
    lt_of_le_of_lt (Nat.mul_le_mul_left _ (bits_ge d)) hsize
  have hwidth : img.width ≤ img.width * img.height := Nat.le_mul_of_pos_right _ hh
  have hheight : img.height ≤ img.width * img.height := Nat.le_mul_of_pos_left _ hw
  rw [wrap_eq (by omega) (by omega)] at hbw hbh
  obtain ⟨mem, hmem, hcopied, hkept⟩ := exists_copyRows hw hh hsize (bufferOf g file) g.startBmp
  rw [← hbw, ← hbh, ← hbits] at hmem
  exact ⟨_, (createBitBmpFile_iff hbm).mpr ⟨mem, hmem, rfl⟩, ⟨hbw, hbh⟩, hcopied, hkept⟩

/-- **Where the rows need no padding**, the bytes of every pixel are those of the image. -/
theorem bytes_of_no_padding (hpad : img.width * d.bytes % 4 = 0) (g : Garbage) :
    ∃ bmp, createBitBmpFile g (some file) = .ok (some bmp) ∧
      (bmp.bw = img.width ∧ bmp.bh = img.height) ∧
      ∀ r < img.height, ∀ c < img.width, ∀ k < d.bytes,
        bmp.mem (4 * (r * img.width + c) + k) = (img.pixel r c).byte k := by
  obtain ⟨bmp, hbmp, hdims, hcopied, -⟩ := exists_load hfile hw hh hsize g
  refine ⟨bmp, hbmp, hdims, fun r hr c hc k hk => ?_⟩
  have hbyte := hfile.pixel r hr c hc k hk
  rw [Bmp.offset, (Bmp.stride_eq_iff d img.width).mpr hpad] at hbyte
  rw [hcopied r c hc k hk (Or.inl hr), bufferOf, List.getD_eq_getElem?_getD, hbyte, Option.getD_some]

/-- **Decoding, exactly.**  A well-formed file of any width and height whose sizes do not overflow
is decoded to the image if and only if it has 32 bits a pixel: with 24 bits the fourth byte of a
word is what the heap held. -/
theorem decodes_iff : Decodes d img file ↔ d = .bits32 := by
  constructor
  · rintro ⟨fourth, -, hall⟩
    cases d with
    | bits32 => rfl
    | bits24 =>
        -- The fourth byte of the first word is any byte.
        have hany : ∀ b : UInt8, b = fourth 0 0 := by
          intro b
          have hload := exists_load hfile hw hh hsize { zeroed with startBmp := fun _ => b }
          obtain ⟨bmp, hbmp, -, -, hkept⟩ := hload
          obtain ⟨bmp', hbmp', hshows⟩ := hall { zeroed with startBmp := fun _ => b }
          have hsame : bmp = bmp' := by
            rw [hbmp] at hbmp'
            exact Option.some.inj (Except.ok.inj hbmp')
          have hfirst := hshows.fourth 0 hh 0 hw
          rw [← hsame, Nat.zero_mul, hkept rfl 0] at hfirst
          exact hfirst
        have hsame : (0 : UInt8) = 1 := (hany 0).trans (hany 1).symm
        exact absurd hsame (by decide)
  · rintro rfl
    have hpad : img.width * Bmp.Depth.bits32.bytes % 4 = 0 := Nat.mul_mod_left img.width 4
    refine ⟨fun r c => (img.pixel r c).alpha, fun _ r _ c _ => rfl, fun g => ?_⟩
    obtain ⟨bmp, hbmp, ⟨hbw, hbh⟩, hbytes⟩ := bytes_of_no_padding hfile hw hh hsize hpad g
    refine ⟨bmp, hbmp, hbw, hbh, fun r hr c hc k hk => ?_, fun r hr c hc => ?_⟩
    · exact hbytes r hr c hc k (Nat.lt_succ_of_lt hk)
    · exact hbytes r hr c hc 3 (by decide)

end Files

/-- One column of white pixels, whose rows of 24 bits are padded. -/
def whiteColumn (height : ℕ) : Bmp.Image where
  width := 1
  height := height
  pixel _ _ := ⟨255, 255, 255, 0⟩

theorem white_column_decoded :
    Decodes .bits32 (whiteColumn 2) (Bmp.encode .bits32 (whiteColumn 2)) := by
  have hfile := Bmp.isFile_encode .bits32 (show (whiteColumn 2).width < 2 ^ 32 by decide) (by decide)
  exact (decodes_iff hfile (by decide) (by decide) (by decide)).mpr rfl

/-- The blue byte of the first word is the padding of the row below. -/
theorem padded_column_not_decoded :
    Bmp.IsFile .bits24 (whiteColumn 2) (Bmp.encode .bits24 (whiteColumn 2)) ∧
      ¬ Decodes .bits24 (whiteColumn 2) (Bmp.encode .bits24 (whiteColumn 2)) := by
  refine ⟨Bmp.isFile_encode .bits24 (show (whiteColumn 2).width < 2 ^ 32 by decide) (by decide), ?_⟩
  rintro ⟨fourth, -, hall⟩
  obtain ⟨bmp, hbmp, hshows⟩ := hall zeroed
  have hblue : bmp.mem 0 = 255 := hshows.colours 0 (by decide) 0 (by decide) 0 (by decide)
  have hzero : (createBitBmpFile zeroed (some (Bmp.encode .bits24 (whiteColumn 2)))).map
      (Option.map fun b => b.mem 0) = .ok (some 0) := by
    decide +kernel
  rw [hbmp] at hzero
  have hpadding : bmp.mem 0 = 0 := Option.some.inj (Except.ok.inj hzero)
  rw [hblue] at hpadding
  exact absurd hpadding (by decide)

end CourseDesign.Drivers
