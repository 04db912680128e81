import CourseDesign.Drivers.BitmapBounds

/-!
# Scaling a bitmap

`zoom_bitBmp` (`bmp.c`): each word of the new bitmap is one of the old one, at a column and a row
that two percentages give.  The percentages come out of a division of `double`s; here they are any
numbers in the bounds that such a division keeps.

* `part_eq`, `part_mono` — the column and the row, each on its own axis.
* `zoom_samples_inside` — the words that are read are inside the old bitmap, in its order, and at
  its own size they are its words.
-/

namespace CourseDesign.Drivers

/-! ## The function -/

/-- `(i*wsc)/100` and `(j*hsc)/100`. -/
def part (sc : ℤ) (i : ℕ) : ℤ := (wrap (i * sc)).tdiv 100

/-- `number`, a `double` that is an `int`. -/
def number (bw wsc hsc : ℤ) (i j : ℕ) : ℤ := wrap (part wsc i + wrap (bw * part hsc j))

/-- `zoom_bitBmp`, with the two percentages; `g` is what the new block held. -/
def zoomBitBmp (g : Memory) (bmp : Bitmap) (wscale hscale wsc hsc : ℤ) :
    Except BitmapFault Bitmap := do
  let block := malloc (blockSize wscale hscale)
  let mem ← Loop.upTo (fun j => Loop.upTo (fun i => memcpy block (4 * wrap (i + wrap (j * wscale)))
    bmp.block (4 * number bmp.bw wsc hsc i j) 4 bmp.mem) wscale.toNat) hscale.toNat g
  return { bw := wscale, bh := hscale, block := block, mem := mem }

/-! ## One axis -/

/-- A percentage for an axis of so many words, scaled to so many others, with no product too large
for an `int`. -/
structure Ratio (size scale sc : ℤ) : Prop where
  size_pos : 0 < size
  scale_pos : 0 < scale
  low : 0 ≤ sc * scale
  high : sc * scale ≤ 100 * size
  fits : ∀ i : ℕ, i < scale → i * sc < 2 ^ 31

section Axis

variable {size scale sc : ℤ} (h : Ratio size scale sc)

include h

theorem Ratio.nonneg : 0 ≤ sc :=
  nonneg_of_mul_nonneg_left h.low h.scale_pos

/-- The two truncations together stay below the size. -/
theorem part_eq {i : ℕ} (hi : i < scale) :
    part sc i = i * sc / 100 ∧ 0 ≤ part sc i ∧ part sc i < size := by
  have hpos : 0 ≤ (i : ℤ) * sc := mul_nonneg (by omega) h.nonneg
  have hpart : part sc i = i * sc / 100 := by
    rw [part, wrap_eq (by omega) (h.fits i hi), Int.tdiv_eq_ediv_of_nonneg hpos]
  have hnext : (i + 1) * sc ≤ scale * sc := mul_le_mul_of_nonneg_right (by omega) h.nonneg
  have hsize := h.high
  have hsize_pos := h.size_pos
  rw [mul_comm] at hsize
  have hlt : (i : ℤ) * sc / 100 < size := by
    rcases h.nonneg.eq_or_lt with hzero | hsc
    · rw [← hzero, mul_zero]
      omega
    · have hsucc : ((i : ℤ) + 1) * sc = i * sc + sc := by ring
      omega
  rw [hpart]
  exact ⟨rfl, by omega, hlt⟩

theorem part_mono {i i' : ℕ} (hle : i ≤ i') (hi' : i' < scale) : part sc i ≤ part sc i' := by
  obtain ⟨hpart, -⟩ := part_eq h (show (i : ℤ) < scale by omega)
  obtain ⟨hpart', -⟩ := part_eq h hi'
  rw [hpart, hpart']
  exact Int.ediv_le_ediv (by decide) (mul_le_mul_of_nonneg_right (by omega) h.nonneg)

end Axis

/-- At a hundred percent nothing moves. -/
theorem part_hundred {size scale : ℤ} (h : Ratio size scale 100) {i : ℕ} (hi : i < scale) :
    part 100 i = i := by
  obtain ⟨hpart, -⟩ := part_eq h hi
  rw [hpart, Int.mul_ediv_cancel _ (by decide)]

/-! ## Both axes -/

/-- `startBmp[n]`, as its bytes. -/
def Bitmap.word (bmp : Bitmap) (n : ℤ) : List UInt8 := bmp.mem.load (4 * n).toNat 4

/-- `i+j*tmp->bw` in bytes. -/
theorem place_toNat {wscale : ℤ} (hw : 0 ≤ wscale) (i j : ℕ) :
    (4 * (i + j * wscale)).toNat = 4 * (j * wscale.toNat + i) := by
  have hcast : ((j * wscale.toNat : ℕ) : ℤ) = j * wscale := by
    rw [Nat.cast_mul, Int.toNat_of_nonneg hw]
  omega

section Zoom

variable {bmp : Bitmap} {wscale hscale wsc hsc : ℤ} (hcols : Ratio bmp.bw wscale wsc)
  (hrows : Ratio bmp.bh hscale hsc) (hsource : bmp.bw * bmp.bh < 2 ^ 31)

include hcols hrows hsource

/-- The word that is read. -/
theorem number_eq {i j : ℕ} (hi : i < wscale) (hj : j < hscale) :
    number bmp.bw wsc hsc i j = part wsc i + bmp.bw * part hsc j ∧
      0 ≤ number bmp.bw wsc hsc i j ∧ number bmp.bw wsc hsc i j < bmp.bw * bmp.bh := by
  obtain ⟨-, hcol, hcol'⟩ := part_eq hcols hi
  obtain ⟨-, hrow, hrow'⟩ := part_eq hrows hj
  have hpos : 0 ≤ bmp.bw * part hsc j := mul_nonneg hcols.size_pos.le hrow
  have hend := row_le hcols.size_pos.le hrow'
  rw [mul_comm] at hend
  have hnumber : number bmp.bw wsc hsc i j = part wsc i + bmp.bw * part hsc j := by
    rw [number, wrap_eq (z := bmp.bw * part hsc j) (by omega) (by omega),
      wrap_eq (by omega) (by omega)]
  rw [hnumber]
  exact ⟨rfl, by omega, by omega⟩

/-- What each word of the new bitmap is to be. -/
def zoomed (bmp : Bitmap) (wsc hsc : ℤ) (r c k : ℕ) : UInt8 :=
  bmp.mem ((4 * number bmp.bw wsc hsc c r).toNat + k)

variable (htarget : 4 * (wscale * hscale) < 2 ^ 31) (hholds : bmp.Holds)

include htarget hholds

/-- One word. -/
theorem zoom_step {i j : ℕ} (hi : i < wscale) (hj : j < hscale) {mem : Memory}
    (hfilled : Filled 4 wscale.toNat j i (zoomed bmp wsc hsc) mem) :
    ∃ mem', memcpy (malloc (blockSize wscale hscale)) (4 * wrap (i + wrap (j * wscale))) bmp.block
        (4 * number bmp.bw wsc hsc i j) 4 bmp.mem mem = .ok mem' ∧
      Filled 4 wscale.toNat j (i + 1) (zoomed bmp wsc hsc) mem' := by
  obtain ⟨-, hlow, hhigh⟩ := number_eq hcols hrows hsource hi hj
  have hrow := row_le hcols.scale_pos.le hj
  have hpos : 0 ≤ (j : ℤ) * wscale := mul_nonneg (by omega) hcols.scale_pos.le
  have hplace : wrap (i + wrap (j * wscale)) = i + j * wscale := by
    rw [wrap_eq (z := (j : ℤ) * wscale) (by omega) (by omega), wrap_eq (by omega) (by omega)]
  have hinside : CopyInside (malloc (blockSize wscale hscale)) (4 * (i + j * wscale)) bmp.block
      (4 * number bmp.bw wsc hsc i j) 4 := by
    refine Or.inr ⟨?_, ?_⟩
    · rw [malloc_blockSize (by omega) htarget]
      exact ⟨by omega, by omega⟩
    · rw [Bitmap.Holds] at hholds
      cases hblock : bmp.block with
      | none =>
          rw [hblock, Option.getD_none] at hholds
          omega
      | some bytes =>
          rw [hblock, Option.getD_some] at hholds
          exact ⟨by omega, by omega⟩
  rw [hplace]
  refine ⟨_, memcpy_iff.mpr ⟨hinside, rfl⟩, ?_⟩
  rw [place_toNat hcols.scale_pos.le]
  exact filled_store hfilled (le_refl 4) (by omega) fun k _ => rfl

/-- The whole bitmap. -/
theorem exists_zoom (g : Memory) : ∃ mem, zoomBitBmp g bmp wscale hscale wsc hsc =
      .ok { bw := wscale, bh := hscale, block := malloc (blockSize wscale hscale), mem := mem } ∧
    Filled 4 wscale.toNat hscale.toNat 0 (zoomed bmp wsc hsc) mem := by
  have hrow : ∀ j s, Filled 4 wscale.toNat j wscale.toNat (zoomed bmp wsc hsc) s →
      Filled 4 wscale.toNat (j + 1) 0 (zoomed bmp wsc hsc) s := fun _ _ => filled_row
  have hcell : ∀ j < hscale.toNat, ∀ i < wscale.toNat, ∀ s,
      Filled 4 wscale.toNat j i (zoomed bmp wsc hsc) s → ∃ t,
        memcpy (malloc (blockSize wscale hscale)) (4 * wrap (i + wrap (j * wscale))) bmp.block
          (4 * number bmp.bw wsc hsc i j) 4 bmp.mem s = .ok t ∧
        Filled 4 wscale.toNat j (i + 1) (zoomed bmp wsc hsc) t :=
    fun j hj i hi s hs =>
      zoom_step hcols hrows hsource htarget hholds (by omega) (by omega) hs
  obtain ⟨mem, hmem, hfilled⟩ := Loop.upTo_cells_of_invariant hcell hrow (s := g) filled_zero
  exact ⟨mem, Loop.bind_eq_ok.mpr ⟨mem, hmem, rfl⟩, hfilled⟩

end Zoom

/-- The words of a bitmap that is filled. -/
theorem word_eq {bmp : Bitmap} {wscale hscale wsc hsc : ℤ} {mem : Memory} {block : Option ℕ}
    (hfilled : Filled 4 wscale.toNat hscale.toNat 0 (zoomed bmp wsc hsc) mem) {i j : ℕ}
    (hi : i < wscale) (hj : j < hscale) :
    Bitmap.word { bw := wscale, bh := hscale, block := block, mem := mem } (i + j * wscale) =
      bmp.word (number bmp.bw wsc hsc i j) := by
  rw [Bitmap.word, Bitmap.word, place_toNat (by omega)]
  refine List.map_congr_left fun k hk => ?_
  exact hfilled j i (by omega) k (List.mem_range.mp hk) (Or.inl (by omega))

/-- Every word that is read is inside the old bitmap, its column and its row each on their axis and
in order; and if the block of the old bitmap has room for its words, the new bitmap has these. -/
structure ZoomSafe (bmp : Bitmap) (wscale hscale wsc hsc : ℤ) : Prop where
  column : ∀ i : ℕ, i < wscale → 0 ≤ part wsc i ∧ part wsc i < bmp.bw
  row : ∀ j : ℕ, j < hscale → 0 ≤ part hsc j ∧ part hsc j < bmp.bh
  index : ∀ i j : ℕ, i < wscale → j < hscale →
    number bmp.bw wsc hsc i j = part wsc i + bmp.bw * part hsc j ∧
      0 ≤ number bmp.bw wsc hsc i j ∧ number bmp.bw wsc hsc i j < bmp.bw * bmp.bh
  columns_mono : ∀ i i' : ℕ, i ≤ i' → i' < wscale → part wsc i ≤ part wsc i'
  rows_mono : ∀ j j' : ℕ, j ≤ j' → j' < hscale → part hsc j ≤ part hsc j'
  words : bmp.Holds → ∀ g, ∃ out, zoomBitBmp g bmp wscale hscale wsc hsc = .ok out ∧
    (out.bw = wscale ∧ out.bh = hscale) ∧
    ∀ i j : ℕ, i < wscale → j < hscale →
      out.word (i + j * wscale) = bmp.word (number bmp.bw wsc hsc i j)
  /-- At its own size, the percentages are exactly a hundred. -/
  same : bmp.Holds → wscale = bmp.bw → hscale = bmp.bh → wsc = 100 → hsc = 100 → ∀ g, ∃ out,
    zoomBitBmp g bmp wscale hscale wsc hsc = .ok out ∧ (out.bw = bmp.bw ∧ out.bh = bmp.bh) ∧
    ∀ i j : ℕ, i < bmp.bw → j < bmp.bh →
      out.word (i + j * bmp.bw) = bmp.word (i + j * bmp.bw)

/-- **Scaling samples inside the source**, for every bitmap, every size and every two percentages in
their bounds, as long as no product is too large for an `int`. -/
theorem zoom_samples_inside {bmp : Bitmap} {wscale hscale wsc hsc : ℤ}
    (hcols : Ratio bmp.bw wscale wsc) (hrows : Ratio bmp.bh hscale hsc)
    (hsource : bmp.bw * bmp.bh < 2 ^ 31) (htarget : 4 * (wscale * hscale) < 2 ^ 31) :
    ZoomSafe bmp wscale hscale wsc hsc := by
  have hwords : bmp.Holds → ∀ g, ∃ out, zoomBitBmp g bmp wscale hscale wsc hsc = .ok out ∧
      (out.bw = wscale ∧ out.bh = hscale) ∧ ∀ i j : ℕ, i < wscale → j < hscale →
        out.word (i + j * wscale) = bmp.word (number bmp.bw wsc hsc i j) := by
    intro hholds g
    obtain ⟨mem, hmem, hfilled⟩ := exists_zoom hcols hrows hsource htarget hholds g
    exact ⟨_, hmem, ⟨rfl, rfl⟩, fun i j hi hj => word_eq hfilled hi hj⟩
  refine
    { column := fun i hi => (part_eq hcols hi).2
      row := fun j hj => (part_eq hrows hj).2
      index := fun i j hi hj => number_eq hcols hrows hsource hi hj
      columns_mono := fun i i' => part_mono hcols
      rows_mono := fun j j' => part_mono hrows
      words := hwords
      same := ?_ }
  rintro hholds rfl rfl rfl rfl g
  obtain ⟨out, hout, hdims, hall⟩ := hwords hholds g
  refine ⟨out, hout, hdims, fun i j hi hj => ?_⟩
  obtain ⟨hnumber, -⟩ := number_eq hcols hrows hsource hi hj
  rw [hall i j hi hj, hnumber, part_hundred hcols hi, part_hundred hrows hj, mul_comm]

/-- Two words in a row. -/
def pair : Bitmap where
  bw := 2
  bh := 1
  block := some 8
  mem i := if i < 4 then 0 else 255

/-- Scaled to three words by two, at 66 and 50 percent. -/
theorem pair_zoomed : pair.Holds ∧ ZoomSafe pair 3 2 66 50 := by
  have hcols : Ratio pair.bw 3 66 :=
    ⟨by decide, by decide, by decide, by decide, fun i hi => by omega⟩
  have hrows : Ratio pair.bh 2 50 :=
    ⟨by decide, by decide, by decide, by decide, fun i hi => by omega⟩
  refine ⟨?_, zoom_samples_inside hcols hrows (by decide) (by decide)⟩
  rw [Bitmap.Holds]
  decide

end CourseDesign.Drivers
