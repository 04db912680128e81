import CourseDesign.Lib.HeapBlocks
import CourseDesign.Attendance.Enrolled

/-!
# The driver of the card reader

`components/rc522/rc522.c`: one scan asks for a tag, reads its serial number and sends it to sleep,
byte by byte through the registers of the reader.  Every access to a register allocates and frees a
buffer, and the serial number is handed up in a block that its receiver has to free.

What is on the bus is open: any device answers anything, and a transfer may fail.  Any call of
`malloc` may find no memory; the driver uses its result all the same.

* `cardWrite_spec`, `getTag_spec`, `start_quiet` — whatever the reader answers, the calls end within
  a bounded number of transfers, without a fault unless memory is short, and own at most the block
  they give back.
-/

namespace CourseDesign.Terminal

open Procedure HeapBlocks

/-- What the driver asks of ESP-IDF: `spi_device_transmit`, `i2c_master_write_to_device` and
`i2c_master_write_read_device`. -/
inductive Transfer where
  | spiTransmit (tx : List (BitVec 8)) (rx : ℕ)
  | i2cWrite (tx : List (BitVec 8))
  | i2cWriteRead (addr : BitVec 8) (rx : ℕ)

/-- The number of bytes that are read. -/
def Transfer.size : Transfer → ℕ
  | .spiTransmit _ rx => rx
  | .i2cWrite _ => 0
  | .i2cWriteRead _ rx => rx

/-- What the driver runs on: a bus with a device, where a transfer without an answer has failed, and
a heap, which has memory for some calls of `malloc`. -/
structure Board (σ : Type) where
  transfer : Transfer → σ → Option (List (BitVec 8)) × σ
  size_eq : ∀ t s bytes, (transfer t s).1 = some bytes → bytes.length = t.size
  memory : ℕ → Bool

/-- `config->transport`, and for SPI the flag `SPI_DEVICE_HALFDUPLEX`. -/
inductive Transport where
  | spi (halfDuplex : Bool)
  | i2c

/-- The device, and how many transfers were made. -/
structure Link (σ : Type) where
  device : σ
  transfers : ℕ

abbrev Driver (σ α : Type) := Proc (World (Link σ) (BitVec 8)) α

section Driver

variable {σ : Type} (board : Board σ) (transport : Transport)

def transfer (t : Transfer) : Driver σ (Option (List (BitVec 8))) := fun w =>
  some ((board.transfer t w.env.device).1,
    { w with env := ⟨(board.transfer t w.env.device).2, w.env.transfers + 1⟩ })

/-- `rc522_spi_send` and `rc522_i2c_send`. -/
def rc522Send (buffer : Option ℕ) (length : ℕ) : Driver σ Bool :=
  match transport with
  | .spi _ => do
      let addr ← load buffer 0
      store buffer 0 ((addr <<< 1) &&& 0x7E)
      let tx ← loadList buffer 0 length
      let ret ← transfer board (.spiTransmit tx 0)
      pure ret.isSome
  | .i2c => do
      let tx ← loadList buffer 0 length
      let ret ← transfer board (.i2cWrite tx)
      pure ret.isSome

/-- The bytes of a transfer are written to the buffer. -/
def receiveInto (buffer : Option ℕ) (t : Transfer) : Driver σ Bool := do
  match ← transfer board t with
  | some bytes => do
      storeList buffer 0 bytes
      pure true
  | none => pure false

/-- `rc522_spi_receive` and `rc522_i2c_receive`. -/
def rc522Receive (buffer : Option ℕ) (length : ℕ) (addr : BitVec 8) : Driver σ Bool :=
  match transport with
  | .spi true => receiveInto board buffer (.spiTransmit [((addr <<< 1) &&& 0x7E) ||| 0x80] length)
  | .spi false => do
      match ← transfer board (.spiTransmit [((addr <<< 1) &&& 0x7E) ||| 0x80] 0) with
      | some _ => receiveInto board buffer (.spiTransmit [] length)
      | none => pure false
  | .i2c => receiveInto board buffer (.i2cWriteRead addr length)

def rc522WriteN (addr : BitVec 8) (n : ℕ) (data : List (BitVec 8)) : Driver σ Bool := do
  let buffer ← malloc board.memory (n + 1)
  store buffer 0 addr
  if n ≤ data.length then do
    storeList buffer 1 (data.take n)
    let ret ← rc522Send board transport buffer (n + 1)
    free buffer
    pure ret
  else fault

def rc522Write (addr val : BitVec 8) : Driver σ Bool := rc522WriteN board transport addr 1 [val]

def rc522ReadN (addr : BitVec 8) (n : ℕ) : Driver σ (Option ℕ) := do
  let buffer ← malloc board.memory n
  let ret ← rc522Receive board transport buffer n addr
  if ret then pure buffer
  else do
    free buffer
    pure none

/-- The result of `rc522_read_n` is not tested. -/
def rc522Read (addr : BitVec 8) : Driver σ (BitVec 8) := do
  let buffer ← rc522ReadN board transport addr 1
  let res ← load buffer 0
  free buffer
  pure res

def rc522SetBitmask (addr mask : BitVec 8) : Driver σ Bool := do
  let val ← rc522Read board transport addr
  rc522Write board transport addr (val ||| mask)

def rc522ClearBitmask (addr mask : BitVec 8) : Driver σ Bool := do
  let val ← rc522Read board transport addr
  rc522Write board transport addr (val &&& ~~~mask)

/-- The loop `for(;;)` of `rc522_calculate_crc` and `rc522_card_write`: the register is polled until
one of the bits is set or the count `i` is used up. -/
def rc522Poll (addr mask : BitVec 8) : ℕ → Driver σ ℕ
  | 0 => pure 0
  | i + 1 => do
      let nn ← rc522Read board transport addr
      if i ≠ 0 ∧ nn &&& mask = 0 then rc522Poll addr mask i else pure i

def rc522CalculateCrc (data : List (BitVec 8)) (n : ℕ) : Driver σ (Option ℕ) := do
  let _ ← rc522ClearBitmask board transport 0x05 0x04
  let _ ← rc522SetBitmask board transport 0x0A 0x80
  let _ ← rc522WriteN board transport 0x09 n data
  let _ ← rc522Write board transport 0x01 0x03
  let _ ← rc522Poll board transport 0x05 0x04 255
  let res ← malloc board.memory 2
  let low ← rc522Read board transport 0x22
  store res 0 low
  let high ← rc522Read board transport 0x21
  store res 1 high
  pure res

/-- `irq` and `irq_wait` for a command. -/
def irqMasks (cmd : BitVec 8) : BitVec 8 × BitVec 8 :=
  if cmd = 0x0E then (0x12, 0x10) else if cmd = 0x0C then (0x77, 0x30) else (0x00, 0x00)

/-- `for(i = 0; i < *res_n; i++) result[i] = rc522_read(rc522, 0x09)`, from `i` on. -/
def readFifo (result : Option ℕ) : ℕ → ℕ → Driver σ PUnit
  | _, 0 => pure ⟨⟩
  | i, n + 1 => do
      let byte ← rc522Read board transport 0x09
      store result i byte
      readFifo result (i + 1) n

/-- The part of `rc522_card_write` after the answer has come.  `resN` is what `*res_n` holds before:
it stays so where the function does not get to its assignment. -/
def cardAnswer (cmd resN : BitVec 8) : Driver σ (Option ℕ × BitVec 8) := do
  let error ← rc522Read board transport 0x06
  if error &&& 0x1B = 0 then
    if cmd = 0x0C then do
      let nn ← rc522Read board transport 0x0A
      let control ← rc522Read board transport 0x0C
      let lastBits := control &&& 0x07
      let resN := if lastBits ≠ 0 then (nn - 1) + lastBits else nn
      let result ← malloc board.memory resN.toNat
      readFifo board transport result 0 resN.toNat
      pure (result, resN)
    else pure (none, resN)
  else pure (none, resN)

/-- `if(cmd == 0x0C) rc522_set_bitmask(rc522, 0x0D, 0x80)`. -/
def startSend (cmd : BitVec 8) : Driver σ Bool :=
  if cmd = 0x0C then rc522SetBitmask board transport 0x0D 0x80 else pure true

/-- `rc522_card_write`, with the result and `*res_n`. -/
def rc522CardWrite (cmd : BitVec 8) (data : List (BitVec 8)) (n : ℕ) (resN : BitVec 8) :
    Driver σ (Option ℕ × BitVec 8) := do
  let _ ← rc522Write board transport 0x02 ((irqMasks cmd).1 ||| 0x80)
  let _ ← rc522ClearBitmask board transport 0x04 0x80
  let _ ← rc522SetBitmask board transport 0x0A 0x80
  let _ ← rc522Write board transport 0x01 0x00
  let _ ← rc522WriteN board transport 0x09 n data
  let _ ← rc522Write board transport 0x01 cmd
  let _ ← startSend board transport cmd
  let i ← rc522Poll board transport 0x04 (0x01 ||| (irqMasks cmd).2) 1000
  let _ ← rc522ClearBitmask board transport 0x0D 0x80
  if i ≠ 0 then cardAnswer board transport cmd resN else pure (none, resN)

def rc522Request (resN : BitVec 8) : Driver σ (Option ℕ × BitVec 8) := do
  let _ ← rc522Write board transport 0x0D 0x07
  let (result, resN) ← rc522CardWrite board transport 0x0C [0x26] 1 resN
  if resN.toNat * 8 ≠ 0x10 then do
    free result
    pure (none, resN)
  else pure (result, resN)

def rc522Anticoll (resN : BitVec 8) : Driver σ (Option ℕ) := do
  let _ ← rc522Write board transport 0x0D 0x00
  let (result, resN) ← rc522CardWrite board transport 0x0C [0x93, 0x20] 2 resN
  if result.isSome ∧ resN ≠ 5 then do
    free result
    pure none
  else pure result

/-- The part of `rc522_get_tag` that sends the tag to sleep. -/
def sendHalt (resDataN : BitVec 8) : Driver σ Bool := do
  let crc ← rc522CalculateCrc board transport [0x50, 0x00, 0x00, 0x00] 2
  let low ← load crc 0
  let high ← load crc 1
  free crc
  let (resData, _) ← rc522CardWrite board transport 0x0C [0x50, 0x00, low, high] 4 resDataN
  free resData
  rc522ClearBitmask board transport 0x08 0x08

/-- `rc522_get_tag`.  `resDataN` and `resN` are what the uninitialized variables `res_data_n` here
and `res_n` in `rc522_anticoll` hold. -/
def rc522GetTag (resDataN resN : BitVec 8) : Driver σ (Option ℕ) := do
  let (resData, resDataN) ← rc522Request board transport resDataN
  if resData.isSome then do
    free resData
    let result ← rc522Anticoll board transport resN
    if result.isSome then do
      let _ ← sendHalt board transport resDataN
      pure result
    else pure none
  else pure none

/-- `~` is computed in `int`. -/
def rc522AntennaOn : Driver σ Bool := do
  let val ← rc522Read board transport 0x14
  if ~~~((val &&& 0x03).setWidth 32) ≠ 0 then do
    let ok ← rc522SetBitmask board transport 0x14 0x03
    if ok then rc522Write board transport 0x26 0x60 else pure false
  else rc522Write board transport 0x26 0x60

/-- The read/write test of `rc522_start`, with the values of `i`. -/
def rwTest : List (BitVec 8) → Driver σ Bool
  | [] => pure true
  | i :: is => do
      let ok ← rc522Write board transport 0x24 i
      if ok then do
        let val ← rc522Read board transport 0x24
        if val = i then rwTest is else pure false
      else pure false

/-- The part of `rc522_start` that only its first call does; `false` means `rc522_destroy`. -/
def rc522Start : Driver σ Bool := do
  let passed ← rwTest board transport [0x25, 0x26]
  if passed then do
    let _ ← rc522Write board transport 0x01 0x0F
    let _ ← rc522Write board transport 0x2A 0x8D
    let _ ← rc522Write board transport 0x2B 0x3E
    let _ ← rc522Write board transport 0x2D 0x1E
    let _ ← rc522Write board transport 0x2C 0x00
    let _ ← rc522Write board transport 0x15 0x40
    let _ ← rc522Write board transport 0x11 0x3D
    let _ ← rc522AntennaOn board transport
    -- `rc522_firmware`
    let _ ← rc522Read board transport 0x37
    pure true
  else pure false

end Driver

/-! ## What the driver leaves behind -/

section Quiet

variable {σ : Type} {board : Board σ} {w w₁ w₂ w₃ w' : World (Link σ) (BitVec 8)} {k l : ℕ}

/-- A call of `malloc` that is still to come will find no memory. -/
abbrev Board.Short (board : Board σ) : World (Link σ) (BitVec 8) → Prop :=
  HeapBlocks.Short board.memory

/-- The heap is as before, and at most `k` transfers were made. -/
def Quiet (k : ℕ) (w w' : World (Link σ) (BitVec 8)) : Prop :=
  w'.heap.block = w.heap.block ∧ w'.env.transfers ≤ w.env.transfers + k

theorem Quiet.trans (h : Quiet k w₁ w₂) (h' : Quiet l w₂ w₃) : Quiet (k + l) w₁ w₃ := by
  refine ⟨h'.1.trans h.1, ?_⟩
  have hfirst := h.2
  have hsecond := h'.2
  omega

theorem quiet_then {α β : Type} {m : Driver σ α} {f : α → Driver σ β}
    (hm : Within board.Short (Quiet k) m) (hf : ∀ a, Within board.Short (Quiet l) (f a)) :
    Within board.Short (Quiet (k + l)) (m >>= f) := hm.bind hf Quiet.trans

theorem quiet_le {α : Type} {m : Driver σ α} (h : Within board.Short (Quiet k) m) (hkl : k ≤ l) :
    Within board.Short (Quiet l) m := by
  intro w
  exact (h w).mono fun _ w' hw' => ⟨hw'.1, hw'.2.trans (Nat.add_le_add_left hkl _)⟩

theorem quiet_pure {α : Type} (a : α) : Within board.Short (Quiet (σ := σ) 0) (pure a) :=
  within_pure (fun _ => ⟨rfl, Nat.le_refl _⟩) a

end Quiet

section Registers

variable {σ : Type} {board : Board σ} {transport : Transport} {w : World (Link σ) (BitVec 8)}
  {f : ℕ → Option (List (Option (BitVec 8)))} {p n : ℕ} {l : List (Option (BitVec 8))}

/-- The transfers that a read of a register is made of. -/
def Transfer.Reads : Transfer → Prop
  | .spiTransmit tx _ => tx.length ≤ 1
  | .i2cWrite _ => False
  | .i2cWriteRead _ _ => True

/-- Reads do not fail; writes may. -/
def Board.Reads (board : Board σ) : Prop := ∀ t s, t.Reads → (board.transfer t s).1.isSome

theorem ends_transfer (t : Transfer) : Ends board.Short (transfer board t) w fun answer w' =>
    (board.transfer t w.env.device).1 = answer ∧ w'.heap.block = w.heap.block ∧
      w'.env.transfers = w.env.transfers + 1 :=
  ends_of_eq rfl id ⟨rfl, rfl, rfl⟩

theorem send_spec (bytes : List (BitVec 8)) (h : Owns f p (bytes.map some) w)
    (hbytes : bytes ≠ []) :
    Ends board.Short (rc522Send board transport (some p) bytes.length) w fun _ w' =>
      (∃ l, Owns f p l w') ∧ w'.env.transfers = w.env.transfers + 1 := by
  obtain ⟨addr, data, rfl⟩ := List.exists_cons_of_ne_nil hbytes
  cases transport with
  | spi halfDuplex =>
      refine (ends_load h (i := 0) rfl).then ?_
      rintro addr _ ⟨rfl, rfl⟩
      refine (ends_store h (by simp) _).then fun _ w₁ ⟨howns, henv⟩ => ?_
      refine (ends_loadList_all (((addr <<< 1) &&& 0x7E) :: data) howns).then ?_
      rintro _ _ ⟨rfl, rfl⟩
      refine (ends_transfer _).then fun _ w₂ ⟨_, hblock, htransfers⟩ => ?_
      exact ends_pure ⟨⟨_, howns.congr hblock⟩, by rw [htransfers, henv]⟩
  | i2c =>
      refine (ends_loadList_all _ h).then ?_
      rintro _ _ ⟨rfl, rfl⟩
      refine (ends_transfer _).then fun _ w₂ ⟨_, hblock, htransfers⟩ => ?_
      exact ends_pure ⟨⟨_, h.congr hblock⟩, htransfers⟩

/-- **A write to a register** frees its buffer, also when the transfer fails. -/
theorem writeN_quiet (addr : BitVec 8) {data : List (BitVec 8)} (hn : n ≤ data.length) :
    Within board.Short (Quiet 1) (rc522WriteN board transport addr n data) := by
  intro w
  refine ends_malloc_then n.succ_ne_zero rfl fun p w₁ howns₁ henv₁ => ?_
  refine (ends_store howns₁ (by simp) addr).then fun _ w₂ ⟨howns₂, henv₂⟩ => ?_
  rw [if_pos hn]
  have hlength : (data.take n).length = n := List.length_take_of_le hn
  have hcells : (List.replicate (n + 1) (none : Option (BitVec 8))).set 0 (some addr) =
      [some addr] ++ List.replicate ((data.take n).length + 0) none := by
    rw [hlength, List.replicate_succ]
    rfl
  rw [hcells] at howns₂
  refine (ends_storeList _ rfl howns₂).then fun _ w₃ ⟨howns₃, henv₃⟩ => ?_
  have hcells₃ : [some addr] ++ (data.take n).map some ++ List.replicate 0 none =
      (addr :: data.take n).map some := by simp
  rw [hcells₃] at howns₃
  have hsend : Ends board.Short
      (rc522Send board transport (some p) (addr :: data.take n).length) w₃ _ :=
    send_spec (addr :: data.take n) howns₃ (List.cons_ne_nil _ _)
  rw [List.length_cons, hlength] at hsend
  refine hsend.then fun ret w₄ ⟨⟨l, howns₄⟩, htransfers⟩ => ?_
  refine (ends_free howns₄).then fun _ w₅ ⟨hblock, henv₅⟩ => ends_pure ⟨hblock, ?_⟩
  rw [henv₅, htransfers, henv₃, henv₂, henv₁]

theorem write_quiet (addr val : BitVec 8) :
    Within board.Short (Quiet 1) (rc522Write board transport addr val) :=
  writeN_quiet addr (Nat.le_refl 1)

theorem receiveInto_spec {t : Transfer} (hanswer : (board.transfer t w.env.device).1.isSome)
    (h : Owns f p (List.replicate t.size none) w) :
    Ends board.Short (receiveInto board (some p) t) w fun ok w' => ok = true ∧
      (∃ bytes : List (BitVec 8), bytes.length = t.size ∧ Owns f p (bytes.map some) w') ∧
      w'.env.transfers = w.env.transfers + 1 := by
  refine (ends_transfer t).then fun answer w₁ ⟨heq, hblock, htransfers⟩ => ?_
  rw [heq] at hanswer
  obtain ⟨bytes, rfl⟩ := Option.isSome_iff_exists.mp hanswer
  have hsize := board.size_eq t w.env.device bytes heq
  have howns : Owns f p ([] ++ List.replicate (bytes.length + 0) none) w₁ := by
    rw [hsize]
    exact h.congr hblock
  refine (ends_storeList bytes rfl howns).then fun _ w₂ ⟨howns₂, henv⟩ => ends_pure ?_
  refine ⟨rfl, ⟨bytes, hsize, by simpa using howns₂⟩, ?_⟩
  rw [henv, htransfers]

theorem receive_spec (hreads : board.Reads) (addr : BitVec 8)
    (h : Owns f p (List.replicate n none) w) :
    Ends board.Short (rc522Receive board transport (some p) n addr) w fun ok w' => ok = true ∧
      (∃ bytes : List (BitVec 8), bytes.length = n ∧ Owns f p (bytes.map some) w') ∧
      w'.env.transfers ≤ w.env.transfers + 2 := by
  match transport with
  | .spi true =>
      refine (receiveInto_spec (t := .spiTransmit [((addr <<< 1) &&& 0x7E) ||| 0x80] n)
        (hreads _ _ (Nat.le_refl 1)) h).mono ?_
      rintro ok w' ⟨hok, hbytes, htransfers⟩
      exact ⟨hok, hbytes, by omega⟩
  | .spi false =>
      refine (ends_transfer _).then fun answer w₁ ⟨heq, hblock, htransfers⟩ => ?_
      have hanswer := hreads (.spiTransmit [((addr <<< 1) &&& 0x7E) ||| 0x80] 0) w.env.device
        (Nat.le_refl 1)
      rw [heq] at hanswer
      obtain ⟨bytes, rfl⟩ := Option.isSome_iff_exists.mp hanswer
      refine (receiveInto_spec (t := .spiTransmit [] n) (hreads _ _ (Nat.zero_le 1))
        (h.congr hblock)).mono ?_
      rintro ok w' ⟨hok, hbytes, htransfers'⟩
      exact ⟨hok, hbytes, by omega⟩
  | .i2c =>
      refine (receiveInto_spec (t := .i2cWriteRead addr n) (hreads _ _ trivial) h).mono ?_
      rintro ok w' ⟨hok, hbytes, htransfers⟩
      exact ⟨hok, hbytes, by omega⟩

/-- **A read of a register** finds a buffer and frees it. -/
theorem read_quiet (hreads : board.Reads) (addr : BitVec 8) :
    Within board.Short (Quiet 2) (rc522Read board transport addr) := by
  intro w
  rw [rc522Read, rc522ReadN, bind_assoc]
  refine ends_malloc_then one_ne_zero ?_ fun p w₁ howns₁ henv₁ => ?_
  -- Without a buffer `rc522_read` loads through the null pointer, whatever was received.
  · rw [bind_assoc]
    refine Eq.trans (congrArg _ (funext fun ret => ?_)) (bind_fault _)
    cases ret <;> rfl
  · rw [bind_assoc]
    refine (receive_spec hreads addr howns₁).then ?_
    rintro _ w₂ ⟨rfl, ⟨bytes, hlength, howns₂⟩, htransfers⟩
    obtain ⟨b, rfl⟩ := List.length_eq_one_iff.mp hlength
    rw [if_pos rfl, pure_bind]
    refine (ends_load howns₂ (i := 0) rfl).then ?_
    rintro _ _ ⟨rfl, rfl⟩
    refine (ends_free howns₂).then fun _ w₃ ⟨hblock, henv₃⟩ => ends_pure ⟨hblock, ?_⟩
    rwa [henv₃, ← henv₁]

theorem setBitmask_quiet (hreads : board.Reads) (addr mask : BitVec 8) :
    Within board.Short (Quiet 3) (rc522SetBitmask board transport addr mask) :=
  quiet_then (read_quiet hreads addr) fun _ => write_quiet addr _

theorem clearBitmask_quiet (hreads : board.Reads) (addr mask : BitVec 8) :
    Within board.Short (Quiet 3) (rc522ClearBitmask board transport addr mask) :=
  quiet_then (read_quiet hreads addr) fun _ => write_quiet addr _

/-- **The polling ends**, by its count. -/
theorem poll_quiet (hreads : board.Reads) (addr mask : BitVec 8) (i : ℕ) :
    Within board.Short (Quiet (2 * i)) (rc522Poll board transport addr mask i) := by
  induction i with
  | zero => exact quiet_pure 0
  | succ i ih =>
      have hround : Within board.Short (Quiet (2 + 2 * i))
          (rc522Poll board transport addr mask (i + 1)) := by
        refine quiet_then (read_quiet hreads addr) fun nn => ?_
        split
        · exact ih
        · exact quiet_le (quiet_pure i) (Nat.zero_le _)
      exact quiet_le hround (by omega)

end Registers

/-! ## What the driver gives back -/

section Blocks

variable {σ : Type} {board : Board σ} {transport : Transport} {w w₁ w₂ : World (Link σ) (BitVec 8)}
  {f : ℕ → Option (List (Option (BitVec 8)))} {p k l size : ℕ} {result : Option ℕ}

/-- At most the block that is given back is allocated; it holds `size` bytes. -/
structure Gives (k : ℕ) (w : World (Link σ) (BitVec 8)) (result : Option ℕ) (size : ℕ)
    (w' : World (Link σ) (BitVec 8)) : Prop where
  null : result = none → w'.heap.block = w.heap.block
  block : ∀ p, result = some p → ∃ bytes : List (BitVec 8), bytes.length = size ∧
    Owns w.heap.block p (bytes.map some) w'
  transfers : w'.env.transfers ≤ w.env.transfers + k

theorem Quiet.gives (h : Quiet k w w₁) : Gives k w none size w₁ :=
  ⟨fun _ => h.1, fun _ hnull => absurd hnull (Option.some_ne_none _).symm, h.2⟩

theorem Gives.after (h : Quiet k w w₁) (hgives : Gives l w₁ result size w₂) :
    Gives (k + l) w result size w₂ := by
  refine ⟨fun hnull => (hgives.null hnull).trans h.1, ?_, ?_⟩
  · rw [← h.1]
    exact hgives.block
  · have hfirst := h.2
    have hsecond := hgives.transfers
    omega

theorem Gives.before (hgives : Gives k w result size w₁) (h : Quiet l w₁ w₂) :
    Gives (k + l) w result size w₂ := by
  refine ⟨fun hnull => h.1.trans (hgives.null hnull), ?_, ?_⟩
  · intro p hp
    obtain ⟨bytes, hlength, howns⟩ := hgives.block p hp
    exact ⟨bytes, hlength, howns.congr h.1⟩
  · have hfirst := hgives.transfers
    have hsecond := h.2
    omega

/-- **What is given back can be freed**, also the null pointer. -/
theorem Gives.free (h : Gives k w result size w₁) :
    Ends board.Short (free result) w₁ fun _ w₂ => Quiet k w w₂ := by
  cases result with
  | none =>
      refine (ends_free_null w₁).mono ?_
      rintro _ _ rfl
      exact ⟨h.null rfl, h.transfers⟩
  | some p =>
      obtain ⟨bytes, -, howns⟩ := h.block p rfl
      refine (ends_free howns).mono fun _ w₂ ⟨hblock, henv⟩ => ⟨hblock, ?_⟩
      rw [henv]
      exact h.transfers

/-- A procedure that gives a block and its size back. -/
def Giving (board : Board σ) (k : ℕ) (m : Driver σ (Option ℕ × BitVec 8)) : Prop :=
  ∀ w, Ends board.Short m w fun r w' => Gives k w r.1 r.2.toNat w'

theorem giving_then {α : Type} {m : Driver σ α} {g : α → Driver σ (Option ℕ × BitVec 8)}
    (hm : Within board.Short (Quiet k) m) (hg : ∀ a, Giving board l (g a)) :
    Giving board (k + l) (m >>= g) := by
  intro w
  exact (hm w).then fun a w₁ hquiet => (hg a w₁).mono fun _ _ hgives => hgives.after hquiet

theorem giving_null (size : BitVec 8) : Giving board l (pure (none, size)) := by
  intro w
  exact ends_pure (Quiet.gives ⟨rfl, Nat.le_add_right _ _⟩)

/-- The first cell that is not written yet. -/
theorem set_next (bs : List (BitVec 8)) (byte : BitVec 8) (n : ℕ) :
    (bs.map some ++ List.replicate (n + 1) none).set bs.length (some byte) =
      (bs ++ [byte]).map some ++ List.replicate n none := by
  rw [List.set_append_right _ _ (by simp), List.length_map, Nat.sub_self, List.replicate_succ]
  simp

/-- The rest of the block is read from the register of the queue. -/
theorem readFifo_spec (hreads : board.Reads) (n : ℕ) (bs : List (BitVec 8))
    (w : World (Link σ) (BitVec 8))
    (h : Owns f p (bs.map some ++ List.replicate n none) w) :
    Ends board.Short (readFifo board transport (some p) bs.length n) w fun _ w' =>
      (∃ bytes : List (BitVec 8), bytes.length = bs.length + n ∧ Owns f p (bytes.map some) w') ∧
        w'.env.transfers ≤ w.env.transfers + 2 * n := by
  induction n generalizing bs w with
  | zero =>
      refine ends_pure ⟨⟨bs, rfl, ?_⟩, Nat.le_refl _⟩
      simpa using h
  | succ n ih =>
      refine (read_quiet hreads 0x09 w).then fun byte w₁ hquiet => ?_
      refine (ends_store (h.congr hquiet.1) (by simp) byte).then fun _ w₂ ⟨howns, henv⟩ => ?_
      rw [set_next] at howns
      have hrest := ih (bs ++ [byte]) w₂ howns
      rw [List.length_append, List.length_singleton] at hrest
      refine hrest.mono fun _ w₃ ⟨⟨bytes, hlength, hbytes⟩, htransfers⟩ => ⟨⟨bytes, ?_, hbytes⟩, ?_⟩
      · omega
      · have hread := hquiet.2
        rw [henv] at htransfers
        omega

theorem readFifo_null (i n : ℕ) : readFifo board transport none i (n + 1) = fault := bind_fault _

theorem cardAnswer_giving (hreads : board.Reads) (cmd resN : BitVec 8) :
    Giving board 516 (cardAnswer board transport cmd resN) := by
  refine giving_then (k := 2) (l := 514) (read_quiet hreads 0x06) fun error => ?_
  split
  next herror =>
      split
      next hcmd =>
          refine giving_then (k := 2) (l := 512) (read_quiet hreads 0x0A) fun nn => ?_
          refine giving_then (k := 2) (l := 510) (read_quiet hreads 0x0C) fun control => ?_
          intro w
          dsimp only
          generalize (if control &&& 0x07 ≠ 0 then nn - 1 + (control &&& 0x07) else nn) = size
          have hsize := size.isLt
          cases hn : size.toNat with
          | zero =>
              -- `malloc(0)` gives no block, and none is used.
              refine (ends_malloc_zero w).then ?_
              rintro _ w₁ ⟨rfl, hblock, henv⟩
              exact ends_pure (Quiet.gives ⟨hblock, by rw [henv]; exact Nat.le_add_right _ _⟩)
          | succ n =>
              refine ends_malloc_then n.succ_ne_zero ?_ fun p w₁ howns henv => ?_
              · rw [readFifo_null, fault_bind]
              refine (readFifo_spec hreads (n + 1) [] w₁ howns).then
                fun _ w₂ ⟨⟨bytes, hlength, hbytes⟩, htransfers⟩ => ends_pure ?_
              refine ⟨fun hnull => absurd hnull (Option.some_ne_none _), ?_, ?_⟩
              · rintro _ ⟨⟩
                exact ⟨bytes, by rw [hlength, hn, List.length_nil, Nat.zero_add], hbytes⟩
              · rw [henv] at htransfers
                show w₂.env.transfers ≤ w.env.transfers + 510
                omega
      next hcmd => exact giving_null _
  next herror => exact giving_null _

/-- **Every command ends**, whatever the reader answers, and gives back a block of the size that it
reports. -/
theorem cardWrite_spec (hreads : board.Reads) (cmd : BitVec 8) (data : List (BitVec 8)) {n : ℕ}
    (hn : n ≤ data.length) (resN : BitVec 8) :
    Giving board 2532 (rc522CardWrite board transport cmd data n resN) := by
  refine giving_then (k := 1) (l := 2531) (write_quiet 0x02 _) fun _ => ?_
  refine giving_then (k := 3) (l := 2528) (clearBitmask_quiet hreads 0x04 0x80) fun _ => ?_
  refine giving_then (k := 3) (l := 2525) (setBitmask_quiet hreads 0x0A 0x80) fun _ => ?_
  refine giving_then (k := 1) (l := 2524) (write_quiet 0x01 0x00) fun _ => ?_
  refine giving_then (k := 1) (l := 2523) (writeN_quiet 0x09 hn) fun _ => ?_
  refine giving_then (k := 1) (l := 2522) (write_quiet 0x01 cmd) fun _ => ?_
  have hstart : Within board.Short (Quiet 3) (startSend board transport cmd) := by
    rw [startSend]
    split
    · exact setBitmask_quiet hreads 0x0D 0x80
    · exact quiet_le (quiet_pure true) (Nat.zero_le _)
  refine giving_then (k := 3) (l := 2519) hstart fun _ => ?_
  refine giving_then (k := 2000) (l := 519) (poll_quiet hreads 0x04 _ 1000) fun i => ?_
  refine giving_then (k := 3) (l := 516) (clearBitmask_quiet hreads 0x0D 0x80) fun _ => ?_
  split
  · exact cardAnswer_giving hreads cmd resN
  · exact giving_null resN

theorem calculateCrc_spec (hreads : board.Reads) (data : List (BitVec 8)) {n : ℕ}
    (hn : n ≤ data.length) (w : World (Link σ) (BitVec 8)) :
    Ends board.Short (rc522CalculateCrc board transport data n) w fun res w' =>
      (∃ p low high, res = some p ∧ Owns w.heap.block p [some low, some high] w') ∧
        w'.env.transfers ≤ w.env.transfers + 522 := by
  refine (clearBitmask_quiet hreads 0x05 0x04 w).then fun _ w₁ h₁ => ?_
  refine (setBitmask_quiet hreads 0x0A 0x80 w₁).then fun _ w₂ h₂ => ?_
  refine (writeN_quiet 0x09 hn w₂).then fun _ w₃ h₃ => ?_
  refine (write_quiet 0x01 0x03 w₃).then fun _ w₄ h₄ => ?_
  refine (poll_quiet hreads 0x05 0x04 255 w₄).then fun _ w₅ h₅ => ?_
  have hquiet := (((h₁.trans h₂).trans h₃).trans h₄).trans h₅
  refine ends_malloc_then (by decide) (bind_fault _) fun res w₆ howns₆ henv₆ => ?_
  refine (read_quiet hreads 0x22 w₆).then fun low w₇ h₇ => ?_
  refine (ends_store (howns₆.congr h₇.1) (by simp) low).then fun _ w₈ ⟨howns₈, henv₈⟩ => ?_
  refine (read_quiet hreads 0x21 w₈).then fun high w₉ h₉ => ?_
  refine (ends_store (howns₈.congr h₉.1) (by simp) high).then fun _ w₁₀ ⟨howns₁₀, henv₁₀⟩ =>
    ends_pure ⟨⟨res, low, high, rfl, ?_⟩, ?_⟩
  · rw [← hquiet.1]
    exact howns₁₀
  · have hbefore := hquiet.2
    have hlow := h₇.2
    have hhigh := h₉.2
    rw [henv₁₀]
    rw [henv₈] at hhigh
    rw [henv₆] at hlow
    omega

theorem request_spec (hreads : board.Reads) (resN : BitVec 8) (w : World (Link σ) (BitVec 8)) :
    Ends board.Short (rc522Request board transport resN) w fun r w' => Gives 2533 w r.1 2 w' := by
  refine (write_quiet 0x0D 0x07 w).then fun _ w₁ h₁ => ?_
  refine (cardWrite_spec hreads 0x0C [0x26] (Nat.le_refl 1) resN w₁).then ?_
  rintro ⟨result, size⟩ w₂ hgives
  have hgives₁ := hgives.after h₁
  dsimp only
  split
  next hsize =>
      exact hgives₁.free.then fun _ w₃ hquiet => ends_pure hquiet.gives
  next hsize =>
      have htwo : size.toNat = 2 := by omega
      rw [htwo] at hgives₁
      exact ends_pure hgives₁

/-- The serial number has five bytes, or there is none. -/
theorem anticoll_spec (hreads : board.Reads) (resN : BitVec 8) (w : World (Link σ) (BitVec 8)) :
    Ends board.Short (rc522Anticoll board transport resN) w fun r w' => Gives 2533 w r 5 w' := by
  refine (write_quiet 0x0D 0x00 w).then fun _ w₁ h₁ => ?_
  refine (cardWrite_spec hreads 0x0C [0x93, 0x20] (Nat.le_refl 2) resN w₁).then ?_
  rintro ⟨result, size⟩ w₂ hgives
  have hgives₁ := hgives.after h₁
  dsimp only
  split
  next hsize =>
      exact hgives₁.free.then fun _ w₃ hquiet => ends_pure hquiet.gives
  next hsize =>
      refine ends_pure ?_
      cases result with
      | none => exact Quiet.gives ⟨hgives₁.null rfl, hgives₁.transfers⟩
      | some p =>
          have hfive : size = 5 := by
            by_contra hne
            exact hsize ⟨rfl, hne⟩
          rw [hfive] at hgives₁
          exact hgives₁

theorem sendHalt_quiet (hreads : board.Reads) (resDataN : BitVec 8) :
    Within board.Short (Quiet 3057) (sendHalt board transport resDataN) := by
  intro w
  refine (calculateCrc_spec hreads [0x50, 0x00, 0x00, 0x00] (n := 2) (by simp) w).then ?_
  rintro _ w₁ ⟨⟨crc, low, high, rfl, hcrc⟩, htransfers⟩
  refine (ends_load hcrc (i := 0) rfl).then ?_
  rintro low _ ⟨rfl, rfl⟩
  refine (ends_load hcrc (i := 1) rfl).then ?_
  rintro high _ ⟨rfl, rfl⟩
  refine (ends_free hcrc).then fun _ w₂ ⟨hblock, henv⟩ => ?_
  have hfreed : Quiet 522 w w₂ := ⟨hblock, by rwa [henv]⟩
  refine (cardWrite_spec hreads 0x0C [0x50, 0x00, low, high] (n := 4) (by simp) resDataN w₂).then ?_
  rintro ⟨answer, n⟩ w₃ hanswer
  refine hanswer.free.then fun _ w₄ h₄ => ?_
  exact (clearBitmask_quiet hreads 0x08 0x08 w₄).mono fun _ w₅ h₅ => (hfreed.trans h₄).trans h₅

/-- **A scan** ends after at most 8123 transfers, and owns at most the serial number it gives
back. -/
theorem getTag_spec (hreads : board.Reads) (transport : Transport) (resDataN resN : BitVec 8)
    (w : World (Link σ) (BitVec 8)) :
    Ends board.Short (rc522GetTag board transport resDataN resN) w fun r w' =>
      Gives 8123 w r 5 w' := by
  refine (request_spec hreads resDataN w).then ?_
  rintro ⟨resData, size⟩ w₁ hrequest
  dsimp only
  split
  next hsome =>
      refine hrequest.free.then fun _ w₂ h₂ => ?_
      refine (anticoll_spec hreads resN w₂).then fun result w₃ hanticoll => ?_
      have hresult := hanticoll.after h₂
      split
      next hfound =>
          refine (sendHalt_quiet hreads size w₃).then fun _ w₄ hhalt => ends_pure ?_
          exact hresult.before hhalt
      next hnone =>
          rw [Option.not_isSome_iff_eq_none] at hnone
          subst hnone
          refine ends_pure (Quiet.gives ⟨hresult.null rfl, ?_⟩)
          exact hresult.transfers.trans (by omega)
  next hnone =>
      rw [Option.not_isSome_iff_eq_none] at hnone
      subst hnone
      refine ends_pure (Quiet.gives ⟨hrequest.null rfl, ?_⟩)
      exact hrequest.transfers.trans (by omega)

end Blocks

/-! ## The first call of `rc522_start` -/

section Start

variable {σ : Type} {board : Board σ} {transport : Transport}

theorem antennaOn_quiet (hreads : board.Reads) :
    Within board.Short (Quiet 6) (rc522AntennaOn board transport) := by
  refine quiet_then (k := 2) (l := 4) (read_quiet hreads 0x14) fun val => ?_
  split
  · refine quiet_then (k := 3) (l := 1) (setBitmask_quiet hreads 0x14 0x03) fun ok => ?_
    split
    · exact write_quiet 0x26 0x60
    · exact quiet_le (quiet_pure false) (Nat.zero_le _)
  · exact quiet_le (write_quiet 0x26 0x60) (by decide)

theorem rwTest_quiet (hreads : board.Reads) (is : List (BitVec 8)) :
    Within board.Short (Quiet (3 * is.length)) (rwTest board transport is) := by
  induction is with
  | nil => exact quiet_pure true
  | cons i is ih =>
      have hround : Within board.Short (Quiet (1 + (2 + 3 * is.length)))
          (rwTest board transport (i :: is)) := by
        refine quiet_then (write_quiet 0x24 i) fun ok => ?_
        split
        · refine quiet_then (read_quiet hreads 0x24) fun val => ?_
          split
          · exact ih
          · exact quiet_le (quiet_pure false) (Nat.zero_le _)
        · exact quiet_le (quiet_pure false) (Nat.zero_le _)
      refine quiet_le hround ?_
      rw [List.length_cons]
      omega

/-- **The first start** ends after at most 21 transfers, whether the read/write test succeeds or
not. -/
theorem start_quiet (hreads : board.Reads) (transport : Transport) :
    Within board.Short (Quiet 21) (rc522Start board transport) := by
  refine quiet_then (k := 6) (l := 15) (rwTest_quiet hreads _) fun passed => ?_
  split
  · refine quiet_then (k := 1) (l := 14) (write_quiet 0x01 0x0F) fun _ => ?_
    refine quiet_then (k := 1) (l := 13) (write_quiet 0x2A 0x8D) fun _ => ?_
    refine quiet_then (k := 1) (l := 12) (write_quiet 0x2B 0x3E) fun _ => ?_
    refine quiet_then (k := 1) (l := 11) (write_quiet 0x2D 0x1E) fun _ => ?_
    refine quiet_then (k := 1) (l := 10) (write_quiet 0x2C 0x00) fun _ => ?_
    refine quiet_then (k := 1) (l := 9) (write_quiet 0x15 0x40) fun _ => ?_
    refine quiet_then (k := 1) (l := 8) (write_quiet 0x11 0x3D) fun _ => ?_
    refine quiet_then (k := 6) (l := 2) (antennaOn_quiet hreads) fun _ => ?_
    exact quiet_then (k := 2) (l := 0) (read_quiet hreads 0x37) fun _ => quiet_pure true
  · exact quiet_le (quiet_pure false) (Nat.zero_le _)

end Start

end CourseDesign.Terminal
