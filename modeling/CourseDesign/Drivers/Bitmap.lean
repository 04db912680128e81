import CourseDesign.Lib.Loop
import CourseDesign.Lib.Bmp
import CourseDesign.Drivers.UserCopy

/-!
# Bitmaps of the viewer

`create_bitBmp_file` (`bmp.c`) and `draw_lcd` (`lcd_event_ui.c`).  Width, height and bit count come
unchecked from the file and go as `int`s through the products that size the block, the buffer and
the copies.  Every `memcpy` names its two regions; one that leaves a region, or touches a `NULL`
one, is a `BitmapFault`.

* `header_of_isFile` — what is read of the header of a well-formed file.
* `memcpy_iff` — when a copy stays inside, and what it does then.
* `filled_store` — a word copied behind others leaves them as they are.
* `wrap_eq` — an `int` product that fits is the product.
-/

namespace CourseDesign.Drivers

/-! ## Numbers -/

/-- The value of an `int` computation, which wraps at 32 bits. -/
def wrap (z : ℤ) : ℤ := (z + 2 ^ 31) % 2 ^ 32 - 2 ^ 31

/-- An `int` stored in an `unsigned int`. -/
def toUnsigned (z : ℤ) : ℕ := (z % 2 ^ 32).toNat

/-- An `int` passed as a `size_t`. -/
def toSize (z : ℤ) : ℕ := (z % 2 ^ 64).toNat

theorem wrap_eq {z : ℤ} (hlow : -2 ^ 31 ≤ z) (hhigh : z < 2 ^ 31) : wrap z = z := by
  rw [wrap]
  omega

theorem toUnsigned_eq {z : ℤ} (hlow : 0 ≤ z) (hhigh : z < 2 ^ 32) : (toUnsigned z : ℤ) = z := by
  rw [toUnsigned]
  omega

theorem toSize_eq {z : ℤ} (hlow : 0 ≤ z) (hhigh : z < 2 ^ 31) : (toSize z : ℤ) = z := by
  rw [toSize]
  omega

/-! ## Regions of memory -/

inductive BitmapFault where
  /-- `draw_lcd` is called with `NULL`. -/
  | nullBitmap
  | writeOutside (offset : ℤ) (n : ℕ)
  | readOutside (offset : ℤ) (n : ℕ)
  deriving DecidableEq, Repr

/-- The `n` bytes at the offset lie in a region of so many bytes; `NULL` has none. -/
def Inside : Option ℕ → ℤ → ℕ → Prop
  | none, _, _ => False
  | some bytes, offset, n => 0 ≤ offset ∧ offset + n ≤ bytes

instance : ∀ region offset n, Decidable (Inside region offset n)
  | none, _, _ => isFalse id
  | some _, _, _ => inferInstanceAs (Decidable (_ ∧ _))

/-- `malloc` of an `int`: a negative one is passed as more bytes than there are. -/
def malloc (size : ℤ) : Option ℕ := if 0 ≤ size then some size.toNat else none

/-- `memcpy` of `n` bytes at `src` in one region to `dst` in another, which holds `mem`. -/
def memcpy (dstRegion : Option ℕ) (dst : ℤ) (srcRegion : Option ℕ) (src : ℤ) (n : ℕ)
    (source mem : Memory) : Except BitmapFault Memory :=
  if n = 0 then .ok mem
  else if ¬ Inside dstRegion dst n then .error (.writeOutside dst n)
  else if ¬ Inside srcRegion src n then .error (.readOutside src n)
  else .ok (mem.store dst.toNat (source.load src.toNat n))

/-- The copy moves nothing, or stays inside both regions. -/
def CopyInside (dstRegion : Option ℕ) (dst : ℤ) (srcRegion : Option ℕ) (src : ℤ) (n : ℕ) : Prop :=
  n = 0 ∨ Inside dstRegion dst n ∧ Inside srcRegion src n

/-! ## The two functions -/

/-- `bitBmp`: `block` is the size of `startBmp`, and `mem` what it holds. -/
structure Bitmap where
  bw : ℤ
  bh : ℤ
  block : Option ℕ
  mem : Memory

/-- What was on the stack and in the heap: `fileHeader`, `startBmp` and `buffer` start with it. -/
structure Garbage where
  header : ℕ → UInt8
  startBmp : Memory
  buffer : Memory

/-- All of it zero. -/
def zeroed : Garbage where
  header _ := 0
  startBmp _ := 0
  buffer _ := 0

/-- `fileHeader` after its `fread`. -/
def fileHeader (g : Garbage) (file : List UInt8) : List UInt8 :=
  (List.range 54).map fun i => file.getD i (g.header i)

/-- `tmp[0] == 'B'` and `tmp[1] == 'M'`. -/
def IsBM (g : Garbage) (file : List UInt8) : Prop := (fileHeader g file).take 2 = [0x42, 0x4D]

instance (g : Garbage) (file : List UInt8) : Decidable (IsBM g file) :=
  inferInstanceAs (Decidable (_ = _))

/-- `bmp->bw = fileHeader.biWidth`. -/
def biWidth (g : Garbage) (file : List UInt8) : ℤ := wrap (LittleEndian.field (fileHeader g file) 18 4)

/-- `bmp->bh = fileHeader.biHeight`. -/
def biHeight (g : Garbage) (file : List UInt8) : ℤ :=
  wrap (LittleEndian.field (fileHeader g file) 22 4)

def biBitCount (g : Garbage) (file : List UInt8) : ℕ := LittleEndian.field (fileHeader g file) 28 2

/-- `bmp->bw*bmp->bh*bmp->pertype`. -/
def blockSize (bw bh : ℤ) : ℤ := wrap (wrap (bw * bh) * 4)

/-- `size = bmp->bw*bmp->bh*fileHeader.biBitCount/8`. -/
def bufferSize (bw bh : ℤ) (bits : ℕ) : ℕ := toUnsigned ((wrap (wrap (bw * bh) * bits)).tdiv 8)

/-- `rowsize = bmp->bw*fileHeader.biBitCount/8`. -/
def rowSize (bw : ℤ) (bits : ℕ) : ℕ := toUnsigned ((wrap (bw * bits)).tdiv 8)

/-- `buffer` after its `fread`. -/
def bufferOf (g : Garbage) (file : List UInt8) : Memory := fun i => file.getD (54 + i) (g.buffer i)

/-- `(bmp->bh-1-i)*rowsize`, an `unsigned int`. -/
def rowStart (bw bh : ℤ) (bits i : ℕ) : ℕ := toUnsigned ((bh - 1 - i) * rowSize bw bits)

/-- The loops over the rows, for 32 bits and for 24. -/
def copyRows (bw bh : ℤ) (bits : ℕ) (buffer mem : Memory) : Except BitmapFault Memory :=
  let block := malloc (blockSize bw bh)
  let size := some (bufferSize bw bh bits)
  if bits / 8 = 4 then
    Loop.upTo (fun i => memcpy block (4 * wrap (i * bw)) size (rowStart bw bh bits i)
      (rowSize bw bits) buffer) bh.toNat mem
  else if bits / 8 = 3 then
    Loop.upTo (fun i => Loop.upTo (fun j => memcpy block (4 * (wrap (i * bw) + j)) size
      (rowStart bw bh bits i + wrap (j * 3)) 3 buffer) bw.toNat) bh.toNat mem
  else .ok mem

/-- `create_bitBmp_file`, for a file that is there or not. -/
def createBitBmpFile (g : Garbage) : Option (List UInt8) → Except BitmapFault (Option Bitmap)
  | none => .ok none
  | some file =>
      if ¬ IsBM g file then .ok none
      else do
        let bw := biWidth g file
        let bh := biHeight g file
        let mem ← copyRows bw bh (biBitCount g file) (bufferOf g file) g.startBmp
        return some { bw := bw, bh := bh, block := malloc (blockSize bw bh), mem := mem }

/-- The size of the mapping `lcd->mmp`. -/
def lcdBytes : ℕ := 800 * 480 * 4

/-- `draw_lcd`: the mapping afterwards. -/
def drawLcd (x y : ℕ) : Option Bitmap → Memory → Except BitmapFault Memory
  | none, _ => .error .nullBitmap
  | some bmp, fb =>
      Loop.upTo (fun i => memcpy (some lcdBytes) (4 * (y * 800 + x + i * 800)) bmp.block
        (4 * (i * bmp.bw)) (toSize (wrap (bmp.bw * 4))) bmp.mem) bmp.bh.toNat fb

/-! ## The header of a file -/

theorem fileHeader_eq (g : Garbage) {file : List UInt8} (hlen : 54 ≤ file.length) :
    fileHeader g file = file.take 54 := by
  apply List.ext_getElem
  · simp [fileHeader, hlen]
  · intro i hi _
    have hlt : i < file.length := by
      rw [fileHeader, List.length_map, List.length_range] at hi
      omega
    simp [fileHeader, hlt]

/-- What is read of the header of a well-formed file. -/
theorem header_of_isFile (g : Garbage) {d : Bmp.Depth} {img : Bmp.Image} {file : List UInt8}
    (hfile : Bmp.IsFile d img file) : IsBM g file ∧ biWidth g file = wrap img.width ∧
      biHeight g file = wrap img.height ∧ biBitCount g file = 8 * d.bytes := by
  have hhead : fileHeader g file = file.take 54 := by
    refine fileHeader_eq g ?_
    rw [hfile.length]
    omega
  refine ⟨?_, ?_, ?_, ?_⟩
  · rw [IsBM, hhead, List.take_take]
    exact hfile.magic
  · rw [biWidth, hhead, LittleEndian.field_take (by decide), hfile.width]
  · rw [biHeight, hhead, LittleEndian.field_take (by decide), hfile.height]
  · rw [biBitCount, hhead, LittleEndian.field_take (by decide), hfile.bits]

/-! ## One copy -/

theorem store_nil (mem : Memory) (base : ℕ) : mem.store base [] = mem := by
  funext i
  simp [Memory.store]

/-- **A copy**, in one statement for all its callers. -/
theorem memcpy_iff {dstRegion srcRegion : Option ℕ} {dst src : ℤ} {n : ℕ}
    {source mem mem' : Memory} :
    memcpy dstRegion dst srcRegion src n source mem = .ok mem' ↔
      CopyInside dstRegion dst srcRegion src n ∧
        mem' = mem.store dst.toNat (source.load src.toNat n) := by
  rw [memcpy, CopyInside]
  by_cases hn : n = 0
  · have hload : source.load src.toNat 0 = [] := rfl
    simp [hn, hload, store_nil, eq_comm]
  · by_cases hdst : Inside dstRegion dst n
    · by_cases hsrc : Inside srcRegion src n
      · simp [hn, hdst, hsrc, eq_comm]
      · simp [hn, hdst, hsrc]
    · simp [hn, hdst]

theorem exists_memcpy_iff {dstRegion srcRegion : Option ℕ} {dst src : ℤ} {n : ℕ}
    (source mem : Memory) :
    (∃ mem', memcpy dstRegion dst srcRegion src n source mem = .ok mem') ↔
      CopyInside dstRegion dst srcRegion src n := by
  constructor
  · rintro ⟨mem', h⟩
    exact (memcpy_iff.mp h).1
  · intro h
    exact ⟨_, memcpy_iff.mpr ⟨h, rfl⟩⟩

/-! ## Words one after another -/

/-- The first `n` bytes of every word are right in the rows above row `i` and in the first `j` words
of row `i`, for rows of `w` words. -/
def Filled (n w i j : ℕ) (right : ℕ → ℕ → ℕ → UInt8) (mem : Memory) : Prop :=
  ∀ r, ∀ c < w, ∀ k < n, (r < i ∨ r = i ∧ c < j) → mem (4 * (r * w + c) + k) = right r c k

section Filled

variable {n w i j : ℕ} {right : ℕ → ℕ → ℕ → UInt8} {mem : Memory}

theorem filled_zero : Filled n w 0 0 right mem := by
  rintro r c - k - (hr | ⟨-, hc⟩)
  · exact absurd hr (Nat.not_lt_zero r)
  · exact absurd hc (Nat.not_lt_zero c)

/-- The last word of a row completes it. -/
theorem filled_row (h : Filled n w i w right mem) : Filled n w (i + 1) 0 right mem := by
  rintro r c hc k hk (hr | ⟨-, hnone⟩)
  · rcases Nat.lt_succ_iff_lt_or_eq.mp hr with habove | rfl
    · exact h r c hc k hk (Or.inl habove)
    · exact h r c hc k hk (Or.inr ⟨rfl, hc⟩)
  · exact absurd hnone (Nat.not_lt_zero c)

/-- **One word** is copied to its place, and the words before it stay. -/
theorem filled_store (h : Filled n w i j right mem) (hn : n ≤ 4) (hj : j < w) {source : Memory}
    {src : ℕ} (hsource : ∀ k < n, source (src + k) = right i j k) :
    Filled n w i (j + 1) right (mem.store (4 * (i * w + j)) (source.load src n)) := by
  intro r c hc k hk hplace
  rw [store_load_apply]
  rcases hplace with habove | ⟨rfl, hleft⟩
  · have hend := Bmp.row_end_le habove w
    rw [if_neg (by omega)]
    exact h r c hc k hk (Or.inl habove)
  · rcases Nat.lt_succ_iff_lt_or_eq.mp hleft with hlt | rfl
    · rw [if_neg (by omega)]
      exact h r c hc k hk (Or.inr ⟨rfl, hlt⟩)
    · rw [if_pos (by omega), Nat.add_sub_cancel_left]
      exact hsource k hk

end Filled

/-! ## A whole file -/

/-- **A file that begins with `BM`** is loaded if its copies stay inside. -/
theorem createBitBmpFile_iff {g : Garbage} {file : List UInt8} (hbm : IsBM g file)
    {r : Option Bitmap} :
    createBitBmpFile g (some file) = .ok r ↔
      ∃ mem, copyRows (biWidth g file) (biHeight g file) (biBitCount g file) (bufferOf g file)
        g.startBmp = .ok mem ∧
        r = some { bw := biWidth g file, bh := biHeight g file,
                   block := malloc (blockSize (biWidth g file) (biHeight g file)), mem := mem } := by
  have hbind : createBitBmpFile g (some file) =
      (copyRows (biWidth g file) (biHeight g file) (biBitCount g file) (bufferOf g file)
        g.startBmp).bind fun mem => .ok (some
          { bw := biWidth g file, bh := biHeight g file,
            block := malloc (blockSize (biWidth g file) (biHeight g file)), mem := mem }) := by
    rw [createBitBmpFile, if_neg (not_not.mpr hbm)]
    rfl
  rw [hbind, Loop.bind_eq_ok]
  constructor
  · rintro ⟨mem, hmem, hr⟩
    exact ⟨mem, hmem, (Except.ok.inj hr).symm⟩
  · rintro ⟨mem, hmem, rfl⟩
    exact ⟨mem, hmem, rfl⟩

end CourseDesign.Drivers
