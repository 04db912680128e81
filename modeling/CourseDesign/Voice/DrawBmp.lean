import CourseDesign.Lib.Loop
import CourseDesign.Lib.Bmp
import Mathlib.Data.List.GetD

/-!
# Drawing a picture

`lcd_draw_bmp` of the voice client, once its file is open and its blocks are there: it reads the
header, reads the rest of the file into `pbmp_buf`, and goes through the rows from `y_e` down to
`y_s` and through the columns from `x_s` on, taking three or four bytes of `pbmp_buf` for each
point. None of the sizes is compared with another; an access outside `pbmp_buf` or the frame buffer
is a `DrawFault`.

* `lcdDrawBmp_iff` — the whole function: every point has its own place in `pbmp_buf` and on the
  screen, and each of them must be inside.
* `drawn_iff_fits` — the files that are drawn at the origin without an access outside.
-/

namespace CourseDesign.Voice

/-- `FB_SIZE`, the bytes of `pbmp_buf` and of the frame buffer. -/
def fbSize : ℕ := 800 * 480 * 4

/-- The points on the screen. -/
def fbWords : ℕ := 800 * 480

/-- The frame buffer, as one word a point. -/
abbrev Framebuffer := ℕ → ℕ

/-- An access outside `pbmp_buf` or the frame buffer. -/
inductive DrawFault where
  | storeOutside (count : ℕ)
  | readOutside (i : ℕ)
  | writeOutside (word : ℕ)
  deriving DecidableEq, Repr

/-! ## The file -/

/-- `buf` after `read(bmp_fd,buf,54)`; it was zero before. -/
def headerBuf (file : List UInt8) : List UInt8 :=
  file.take 54 ++ List.replicate (54 - file.length) 0

/-- `buf[k] | buf[k+1]<<8`. -/
def headerField (file : List UInt8) (k : ℕ) : ℕ :=
  ((headerBuf file).getD k 0).toNat ||| ((headerBuf file).getD (k + 1) 0).toNat <<< 8

def bmpWidth (file : List UInt8) : ℕ := headerField file 18

def bmpHeight (file : List UInt8) : ℕ := headerField file 22

def bmpType (file : List UInt8) : ℕ := headerField file 28

/-- `bmp_size=file_size_get(pbmp_path)`, an `unsigned int`. -/
def bmpSize (file : List UInt8) : ℕ := file.length % 2 ^ 32

/-- The bytes that `read(bmp_fd,pbmp_buf,bmp_size-54)` brings: it asks for an unsigned difference,
and there are no more than the file has left. -/
def storedBytes (file : List UInt8) : ℕ :=
  min ((bmpSize file + 2 ^ 32 - 54) % 2 ^ 32) (file.length - 54)

/-- `pbmp_buf`, which was zero before. -/
def pbmpBuf (file : List UInt8) (i : ℕ) : UInt8 :=
  if i < storedBytes file then (file.drop 54).getD i 0 else 0

/-- What is added to `i` for each point. -/
def bytesPerPoint (file : List UInt8) : ℕ := if bmpType file = 32 then 4 else 3

/-! ## The loops -/

/-- `*(pbmp_buf+i)`. -/
def readPbmp (file : List UInt8) (i : ℕ) : Except DrawFault ℕ :=
  if i < fbSize then .ok (pbmpBuf file i).toNat else .error (.readOutside i)

def lcdDrawPoint (x y color : ℕ) (fb : Framebuffer) : Except DrawFault Framebuffer :=
  if y * 800 + x < fbWords then .ok (Function.update fb (y * 800 + x) color)
  else .error (.writeOutside (y * 800 + x))

/-- `i` and the frame buffer.  The unsigned `i` would wrap only far outside `pbmp_buf`. -/
structure Canvas where
  i : ℕ
  fb : Framebuffer

def rgb (red green blue : ℕ) : ℕ := red <<< 16 ||| green <<< 8 ||| blue <<< 0

/-- The body of the loops. -/
def drawPoint (file : List UInt8) (x y : ℕ) (s : Canvas) : Except DrawFault Canvas := do
  let blue ← readPbmp file s.i
  let green ← readPbmp file (s.i + 1)
  let red ← readPbmp file (s.i + 2)
  let fb ← lcdDrawPoint x y (rgb red green blue) s.fb
  return { i := s.i + bytesPerPoint file, fb := fb }

/-- `lcd_draw_bmp`: the frame buffer afterwards.  Round `k` of the outer loop has `y = y_e - k`, and
its last round is that of `y = y_s`. -/
def lcdDrawBmp (xS yS : ℕ) (file : List UInt8) (fb : Framebuffer) :
    Except DrawFault Framebuffer := do
  if fbSize < storedBytes file then throw (.storeOutside (storedBytes file))
  let yE := yS + bmpHeight file
  let s ← Loop.upTo (fun k => Loop.upTo (fun c => drawPoint file (xS + c) (yE - k)) (bmpWidth file))
    (bmpHeight file + 1) { i := 0, fb := fb }
  return s.fb

/-! ## What is drawn where -/

/-- The word of the `n`-th point. -/
def pointWord (xS yS : ℕ) (file : List UInt8) (n : ℕ) : ℕ :=
  (yS + bmpHeight file - n / bmpWidth file) * 800 + (xS + n % bmpWidth file)

/-- The color of the `n`-th point. -/
def pointColor (file : List UInt8) (n : ℕ) : ℕ :=
  rgb (pbmpBuf file (n * bytesPerPoint file + 2)).toNat
    (pbmpBuf file (n * bytesPerPoint file + 1)).toNat (pbmpBuf file (n * bytesPerPoint file)).toNat

/-- The number of points, with those of the row below the picture. -/
def pointCount (file : List UInt8) : ℕ := (bmpHeight file + 1) * bmpWidth file

/-- The `n`-th point is read from inside `pbmp_buf` and drawn on the screen. -/
def PointInside (xS yS : ℕ) (file : List UInt8) (n : ℕ) : Prop :=
  n * bytesPerPoint file + 2 < fbSize ∧ pointWord xS yS file n < fbWords

theorem drawPoint_iff {file : List UInt8} {x y : ℕ} {s t : Canvas} :
    drawPoint file x y s = .ok t ↔ (s.i + 2 < fbSize ∧ y * 800 + x < fbWords) ∧
      t = { i := s.i + bytesPerPoint file
            fb := Function.update s.fb (y * 800 + x) (rgb (pbmpBuf file (s.i + 2)).toNat
              (pbmpBuf file (s.i + 1)).toNat (pbmpBuf file s.i).toNat) } := by
  by_cases hread : s.i + 2 < fbSize
  · have h₀ : s.i < fbSize := by omega
    have h₁ : s.i + 1 < fbSize := by omega
    by_cases hword : y * 800 + x < fbWords
    · simp [drawPoint, readPbmp, lcdDrawPoint, h₀, h₁, hread, hword, bind, Except.bind, pure,
        Except.pure, eq_comm]
    · simp [drawPoint, readPbmp, lcdDrawPoint, h₀, h₁, hread, hword, bind, Except.bind]
  · simp only [drawPoint, readPbmp, hread, false_and, iff_false, bind, Except.bind]
    split
    · simp
    · split <;> simp

/-- The state before the `n`-th point. -/
def canvasAt (xS yS : ℕ) (file : List UInt8) (fb : Framebuffer) (n : ℕ) : Canvas :=
  { i := n * bytesPerPoint file
    fb := Loop.written (pointWord xS yS file) (pointColor file) fb n }

/-- One point. -/
theorem drawPoint_canvasAt (xS yS : ℕ) (file : List UInt8) (fb : Framebuffer) (n : ℕ) (t : Canvas) :
    drawPoint file (xS + n % bmpWidth file) (yS + bmpHeight file - n / bmpWidth file)
        (canvasAt xS yS file fb n) = .ok t ↔
      PointInside xS yS file n ∧ t = canvasAt xS yS file fb (n + 1) := by
  rw [drawPoint_iff, canvasAt, canvasAt, Nat.succ_mul]
  rfl

/-- One row. -/
theorem drawRow_canvasAt (xS yS : ℕ) (file : List UInt8) (fb : Framebuffer) (k : ℕ) (t : Canvas) :
    Loop.upTo (fun c => drawPoint file (xS + c) (yS + bmpHeight file - k)) (bmpWidth file)
        (canvasAt xS yS file fb (k * bmpWidth file)) = .ok t ↔
      (∀ c < bmpWidth file, PointInside xS yS file (k * bmpWidth file + c)) ∧
        t = canvasAt xS yS file fb (k * bmpWidth file + bmpWidth file) := by
  refine Loop.upTo_iff (s := fun c => canvasAt xS yS file fb (k * bmpWidth file + c)) ?_ t
  intro c hc u
  have hpoint := drawPoint_canvasAt xS yS file fb (k * bmpWidth file + c) u
  obtain ⟨hrow, hcol⟩ := Bmp.cell_div_mod k hc
  rwa [hrow, hcol] at hpoint

/-- **The whole function**: it runs through its points one after another. -/
theorem lcdDrawBmp_iff {xS yS : ℕ} {file : List UInt8} {fb fb' : Framebuffer} :
    lcdDrawBmp xS yS file fb = .ok fb' ↔ storedBytes file ≤ fbSize ∧
      (∀ n < pointCount file, PointInside xS yS file n) ∧
      fb' = Loop.written (pointWord xS yS file) (pointColor file) fb (pointCount file) := by
  have hloop := Loop.upTo_iff (n := bmpHeight file + 1)
    (s := fun k => canvasAt xS yS file fb (k * bmpWidth file))
    (fun k _ t => by rw [drawRow_canvasAt xS yS file fb k t, ← Nat.succ_mul])
  simp only [Bmp.forall_cells_iff (P := PointInside xS yS file), Nat.zero_mul] at hloop
  have hstart : canvasAt xS yS file fb 0 = { i := 0, fb := fb } := by
    rw [canvasAt, Nat.zero_mul, Loop.written]
  rw [hstart] at hloop
  by_cases hstore : fbSize < storedBytes file
  · have hfail : lcdDrawBmp xS yS file fb = .error (.storeOutside (storedBytes file)) := by
      rw [lcdDrawBmp, if_pos hstore]
      rfl
    rw [hfail]
    simp [Nat.not_le_of_lt hstore]
  · have hrun : lcdDrawBmp xS yS file fb = Except.bind (Loop.upTo (fun k => Loop.upTo (fun c =>
        drawPoint file (xS + c) (yS + bmpHeight file - k)) (bmpWidth file)) (bmpHeight file + 1)
        { i := 0, fb := fb }) fun s => .ok s.fb := by
      rw [lcdDrawBmp, if_neg hstore]
      rfl
    rw [hrun, Loop.bind_eq_ok, pointCount]
    constructor
    · rintro ⟨s, hs, hfb⟩
      obtain ⟨hall, rfl⟩ := (hloop s).mp hs
      exact ⟨Nat.le_of_not_lt hstore, hall, (Except.ok.inj hfb).symm⟩
    · rintro ⟨-, hall, rfl⟩
      exact ⟨_, (hloop _).mpr ⟨hall, rfl⟩, rfl⟩

/-! ## Sizes -/

/-- The read stores what is behind the header, by a count of 32 bits. -/
theorem storedBytes_eq (file : List UInt8) : storedBytes file = (file.length - 54) % 2 ^ 32 := by
  rw [storedBytes, bmpSize]
  omega

theorem headerField_eq {file : List UInt8} (hlen : 54 ≤ file.length) {k : ℕ} (hk : k + 1 < 54) :
    headerField file k = LittleEndian.field file k 2 := by
  have hbuf : ∀ j < 54, (headerBuf file).getD j 0 = file.getD j 0 := by
    intro j hj
    have hlt : j < (file.take 54).length := by
      rw [List.length_take]
      omega
    rw [headerBuf, List.getD_append _ _ _ _ hlt, List.getD_eq_getElem _ _ hlt, List.getElem_take,
      List.getD_eq_getElem _ _ (by omega)]
  have h₀ : k < file.length := by omega
  have h₁ : k + 1 < file.length := by omega
  have hor := LittleEndian.shiftLeft_or_byte (file[k + 1]).toNat 0 file[k]
  simp only [Nat.zero_add, Nat.one_mul, Nat.zero_mul, Nat.shiftLeft_zero] at hor
  rw [headerField, hbuf k (by omega), hbuf (k + 1) hk, List.getD_eq_getElem _ _ h₀,
    List.getD_eq_getElem _ _ h₁, Nat.or_comm, hor, LittleEndian.field_succ h₀,
    LittleEndian.field_succ h₁, LittleEndian.field_zero]
  rfl

/-- Only the low half of a field of four bytes is looked at. -/
theorem headerField_of_field {file : List UInt8} (hlen : 54 ≤ file.length) {k n : ℕ} (hk : k + 1 < 54)
    (hfield : LittleEndian.field file k 4 = n) (hn : n < 2 ^ 16) : headerField file k = n := by
  have hhalves : LittleEndian.field file k 4 =
      LittleEndian.field file k 2 + 256 ^ 2 * LittleEndian.field file (k + 2) 2 :=
    LittleEndian.field_add (by omega) 2
  rw [headerField_eq hlen hk]
  omega

theorem le_length_of_isFile {d : Bmp.Depth} {img : Bmp.Image} {file : List UInt8}
    (h : Bmp.IsFile d img file) : 54 ≤ file.length := by
  rw [h.length]
  omega

/-- The width, the height and the bytes a point of a well-formed file. -/
theorem header_of_isFile {d : Bmp.Depth} {img : Bmp.Image} {file : List UInt8}
    (h : Bmp.IsFile d img file) (hw : img.width < 2 ^ 16) (hh : img.height < 2 ^ 16) :
    bmpWidth file = img.width ∧ bmpHeight file = img.height ∧ bytesPerPoint file = d.bytes := by
  have hlen := le_length_of_isFile h
  refine ⟨headerField_of_field hlen (by omega) h.width hw,
    headerField_of_field hlen (by omega) h.height hh, ?_⟩
  rw [bytesPerPoint, bmpType, headerField_eq hlen (by omega), h.bits]
  cases d with
  | bits24 => rfl
  | bits32 => rfl

/-! ## Memory safety -/

/-- The file is drawn at the origin with every access inside. -/
def Fits (file : List UInt8) : Prop :=
  (file.length - 54) % 2 ^ 32 ≤ fbSize ∧
    (bmpWidth file = 0 ∨ bmpHeight file * 800 + bmpWidth file ≤ fbWords ∧
      (pointCount file - 1) * bytesPerPoint file + 2 < fbSize)

instance (file : List UInt8) : Decidable (Fits file) := inferInstanceAs (Decidable (_ ∧ _))

/-- The lowest row has the highest words, and the last point the highest bytes. -/
theorem pointInside_iff (file : List UInt8) (hw : 0 < bmpWidth file) :
    (∀ n < pointCount file, PointInside 0 0 file n) ↔
      bmpHeight file * 800 + bmpWidth file ≤ fbWords ∧
        (pointCount file - 1) * bytesPerPoint file + 2 < fbSize := by
  have hcount : bmpWidth file ≤ pointCount file := by
    rw [pointCount, Nat.succ_mul]
    omega
  constructor
  · intro hall
    have hfirst := (hall (bmpWidth file - 1) (by omega)).2
    have hlast := (hall (pointCount file - 1) (by omega)).1
    rw [pointWord, Nat.div_eq_of_lt (by omega), Nat.mod_eq_of_lt (by omega)] at hfirst
    exact ⟨by omega, hlast⟩
  · rintro ⟨hword, hbyte⟩ n hn
    constructor
    · have hle : n * bytesPerPoint file ≤ (pointCount file - 1) * bytesPerPoint file :=
        Nat.mul_le_mul_right _ (by omega)
      omega
    · have hmod := Nat.mod_lt n hw
      rw [pointWord]
      have hrow : (0 + bmpHeight file - n / bmpWidth file) * 800 ≤ bmpHeight file * 800 :=
        Nat.mul_le_mul_right _ (by rw [Nat.zero_add]; exact Nat.sub_le _ _)
      omega

/-- **Memory safety, exactly.**  For every file, of any length and content, `lcd_draw_bmp` at the
origin keeps to `pbmp_buf` and to the frame buffer if and only if what follows the header fits
`pbmp_buf`, and, unless the width is zero, the row below the picture ends on the screen and the
points of all rows, that one included, have their bytes in `pbmp_buf`. -/
theorem drawn_iff_fits (file : List UInt8) (fb : Framebuffer) :
    (∃ fb', lcdDrawBmp 0 0 file fb = .ok fb') ↔ Fits file := by
  simp only [lcdDrawBmp_iff, Fits, storedBytes_eq]
  constructor
  · rintro ⟨fb', hstore, hall, -⟩
    refine ⟨hstore, ?_⟩
    rcases Nat.eq_zero_or_pos (bmpWidth file) with hzero | hpos
    · exact Or.inl hzero
    · exact Or.inr ((pointInside_iff file hpos).mp hall)
  · rintro ⟨hstore, hpoints⟩
    refine ⟨_, hstore, ?_, rfl⟩
    rcases Nat.eq_zero_or_pos (bmpWidth file) with hzero | hpos
    · intro n hn
      rw [pointCount, hzero, Nat.mul_zero] at hn
      exact absurd hn (Nat.not_lt_zero n)
    · exact (pointInside_iff file hpos).mpr (hpoints.resolve_left (by omega))

/-- A picture of one color. -/
def plain (width height : ℕ) (p : Bmp.Pixel) : Bmp.Image :=
  { width := width, height := height, pixel := fun _ _ => p }

/-- Even a correct picture of the size of the screen has a row too many. -/
theorem full_screen_not_drawn :
    ¬ ∃ fb, lcdDrawBmp 0 0 (Bmp.encode .bits24 (plain 800 480 ⟨0, 0, 0, 0⟩)) (fun _ => 0) =
      .ok fb := by
  rintro ⟨fb, hdraw⟩
  have hfile : Bmp.IsFile .bits24 (plain 800 480 ⟨0, 0, 0, 0⟩) _ :=
    Bmp.isFile_encode .bits24 (by decide) (by decide)
  obtain ⟨hwidth, hheight, -⟩ := header_of_isFile hfile (by decide) (by decide)
  obtain ⟨-, hall, -⟩ := lcdDrawBmp_iff.mp hdraw
  have hcount : 0 < pointCount (Bmp.encode .bits24 (plain 800 480 ⟨0, 0, 0, 0⟩)) := by
    rw [pointCount, hwidth, hheight]
    decide
  have hword := (hall 0 hcount).2
  rw [pointWord, hwidth, hheight] at hword
  exact absurd hword (by decide)

end CourseDesign.Voice
