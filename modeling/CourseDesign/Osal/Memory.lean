import CourseDesign.Lib.FirstFit
import CourseDesign.Lib.LittleEndian
import CourseDesign.Drivers.UserCopy

/-!
# The heap of the sensor nodes

`OSAL_Memory.c`.  Every block begins with a header of two bytes, 15 bits of length and a bit that
says whether it is in use, and the next block follows at once, since `halDataAlign_t` is one byte on
the CC2530.  Places are offsets into `theHeap`.

* `Walk` — the headers of a stretch of the heap are those of a row of blocks.
* `osalMemSearch_walk` — the loop of `osal_mem_alloc` is a first fit on that row.
* `Rows` — the heap is one such row, with the header behind the bucket in use.
* `osalMemAlloc_rows`, `osalMemFree_rows`, `osalMemKick_rows` — what the functions do to it.
-/

namespace CourseDesign.Osal

open CourseDesign.Drivers (Memory load_store length_load)
open FirstFit

/-! ## The functions -/

/-- The sizes that a build fixes: `MAXMEMHEAP` and `OSALMEM_SMALLBLK_BUCKET`. -/
structure HeapLayout where
  maxMemHeap : ℕ
  bucket : ℕ
  maxMemHeap_even : maxMemHeap % 2 = 0
  bucket_even : bucket % 2 = 0
  bucket_pos : 0 < bucket
  /-- The wilderness has room for a block. -/
  bucket_lt : bucket + 4 < maxMemHeap
  /-- Else `MAXMEMHEAP` is too big to manage. -/
  maxMemHeap_lt : maxMemHeap < 2 ^ 15

/-- The build of the end device: `INT_HEAP_LEN` without `RTR_NWK`. -/
def endDeviceHeap : HeapLayout where
  maxMemHeap := 2048
  bucket := 584
  maxMemHeap_even := rfl
  bucket_even := rfl
  bucket_pos := by decide
  bucket_lt := by decide
  maxMemHeap_lt := by decide

/-- Where the wilderness begins, behind the header that blocks the bucket: `OSALMEM_BIGBLK_IDX`. -/
def HeapLayout.bigblk (L : HeapLayout) : ℕ := L.bucket + 2

/-- The header that ends the heap: `OSALMEM_LASTBLK_IDX`. -/
def HeapLayout.lastblk (L : HeapLayout) : ℕ := L.maxMemHeap - 2

/-- `OSALMEM_MIN_BLKSZ`. -/
def minBlksz : ℕ := 4

/-- `OSALMEM_SMALL_BLKSZ`. -/
def smallBlksz : ℕ := 16

/-- `hdr->val`. -/
def val (mem : Memory) (hdr : ℕ) : ℕ := LittleEndian.number (mem.load hdr 2)

/-- `hdr->hdr.len`, the low 15 bits. -/
def len (mem : Memory) (hdr : ℕ) : ℕ := val mem hdr % 2 ^ 15

/-- `hdr->hdr.inUse`, the high bit. -/
def InUse (mem : Memory) (hdr : ℕ) : Prop := 2 ^ 15 ≤ val mem hdr

instance (mem : Memory) (hdr : ℕ) : Decidable (InUse mem hdr) := inferInstanceAs (Decidable (_ ≤ _))

/-- `hdr->val = v`. -/
def setVal (mem : Memory) (hdr v : ℕ) : Memory := mem.store hdr (LittleEndian.bytes 2 v)

/-- `hdr->hdr.len = n`. -/
def setLen (mem : Memory) (hdr n : ℕ) : Memory :=
  setVal mem hdr (n % 2 ^ 15 + if InUse mem hdr then 2 ^ 15 else 0)

/-- `hdr->hdr.inUse = b`. -/
def setInUse (mem : Memory) (hdr : ℕ) (b : Bool) : Memory :=
  setVal mem hdr (len mem hdr + if b then 2 ^ 15 else 0)

/-- The static data of the module; `kicked` is `osalMemStat`. -/
structure Heap where
  mem : Memory
  ff1 : ℕ
  kicked : Bool

/-- `osal_mem_init`, over what the memory held. -/
def osalMemInit (L : HeapLayout) (g : Memory) : Heap where
  mem := setVal (setVal (setVal (setVal g L.lastblk 0) 0 L.bucket) L.bucket (2 ||| 2 ^ 15)) L.bigblk
    (L.maxMemHeap - L.bucket - 4)
  ff1 := 0
  kicked := false

/-- The body of the `do` loop, up to the next header: what was found, and `prev` where `coal` is
set. -/
def visit (size : ℕ) (mem : Memory) (coal : Option ℕ) (hdr : ℕ) : Memory × Option ℕ × Option ℕ :=
  if InUse mem hdr then (mem, none, none)
  else
    match coal with
    | some prev =>
        let mem := setLen mem prev (len mem prev + len mem hdr)
        if size ≤ len mem prev then (mem, some prev, some prev) else (mem, none, some prev)
    | none => if size ≤ len mem hdr then (mem, some hdr, none) else (mem, none, some hdr)

/-- The `do` loop of `osal_mem_alloc`, with a bound on its rounds. -/
def osalMemSearch (size : ℕ) : ℕ → Memory → Option ℕ → ℕ → Option (Memory × Option ℕ)
  | 0, _, _, _ => none
  | fuel + 1, mem, coal, hdr =>
      match visit size mem coal hdr with
      | (mem, some found, _) => some (mem, some found)
      | (mem, none, coal) =>
          let hdr := hdr + len mem hdr
          if val mem hdr = 0 then some (mem, none) else osalMemSearch size fuel mem coal hdr

/-- `size`, with the header and as a `uint16`. -/
def request (n : ℕ) : ℕ := (n + 2) % 2 ^ 16

/-- Where the search begins. -/
def Heap.start (L : HeapLayout) (h : Heap) (size : ℕ) : ℕ :=
  if h.kicked = false ∨ size ≤ smallBlksz then h.ff1 else L.bigblk

/-- What `osal_mem_alloc` does to the block it found. -/
def claim (mem : Memory) (hdr size : ℕ) : Memory :=
  if minBlksz ≤ len mem hdr - size then
    setVal (setVal mem (hdr + size) (len mem hdr - size)) hdr (size ||| 2 ^ 15)
  else setInUse mem hdr true

/-- `osal_mem_alloc`. -/
def osalMemAlloc (L : HeapLayout) (n : ℕ) (h : Heap) : Option (Heap × Option ℕ) :=
  (osalMemSearch (request n) L.maxMemHeap h.mem none (h.start L (request n))).map fun
    | (mem, none) => ({ h with mem := mem }, none)
    | (mem, some hdr) =>
        let mem := claim mem hdr (request n)
        let ff1 := if h.kicked = true ∧ h.ff1 = hdr then hdr + len mem hdr else h.ff1
        ({ h with mem := mem, ff1 := ff1 }, some (hdr + 2))

/-- `osal_mem_free`. -/
def osalMemFree (p : ℕ) (h : Heap) : Heap :=
  let hdr := p - 2
  { h with
    mem := setInUse h.mem hdr false
    ff1 := if h.ff1 > hdr then hdr else h.ff1 }

/-- `osal_mem_kick`, and where the byte was that it asks for; its `HAL_ASSERT` says there is one. -/
def osalMemKick (L : HeapLayout) (h : Heap) : Option (Heap × ℕ) :=
  match osalMemAlloc L 1 h with
  | some (h, some tmp) =>
      some ({ osalMemFree tmp { h with ff1 := tmp - 2 } with kicked := true }, tmp)
  | _ => none

/-! ## Headers -/

section Headers

variable {mem : Memory} {a b v : ℕ}

theorem val_setVal (hv : v < 2 ^ 16) : val (setVal mem a v) a = v := by
  have hload := load_store mem a (LittleEndian.bytes 2 v)
  rw [LittleEndian.length_bytes] at hload
  rw [val, setVal, hload, LittleEndian.number_bytes hv]

/-- Writing a header changes its two bytes only. -/
theorem setVal_apply {i : ℕ} (h : i < a ∨ a + 2 ≤ i) : setVal mem a v i = mem i := by
  rw [setVal, Memory.store]
  split
  · have hnone : (LittleEndian.bytes 2 v)[i - a]? = none := by
      rw [List.getElem?_eq_none_iff, LittleEndian.length_bytes]
      omega
    rw [hnone, Option.getD_none]
  · rfl

theorem val_congr {mem' : Memory} (h : ∀ i, a ≤ i → i < a + 2 → mem' i = mem i) :
    val mem' a = val mem a := by
  have hload : mem'.load a 2 = mem.load a 2 := by
    refine List.map_congr_left fun i hi => ?_
    have hlt := List.mem_range.mp hi
    exact h _ (by omega) (by omega)
  rw [val, val, hload]

theorem val_setVal_of_ne (h : b + 2 ≤ a ∨ a + 2 ≤ b) : val (setVal mem a v) b = val mem b :=
  val_congr fun _ _ _ => setVal_apply (by omega)

end Headers

/-! ## The row of blocks -/

/-- `val` of the header of a block. -/
def header (b : Block) : ℕ := b.len + if b.inUse then 2 ^ 15 else 0

/-- The headers from `a` to `e` are those of the blocks, each with room for its header. -/
def Walk (mem : Memory) : ℕ → List Block → ℕ → Prop
  | a, [], e => a = e
  | a, b :: bs, e => val mem a = header b ∧ 2 ≤ b.len ∧ b.len < 2 ^ 15 ∧ Walk mem (a + b.len) bs e

section Walks

variable {mem mem' : Memory} {a e : ℕ} {b : Block} {bs cs : List Block}

theorem walk_cons : Walk mem a (b :: bs) e ↔
    val mem a = header b ∧ 2 ≤ b.len ∧ b.len < 2 ^ 15 ∧ Walk mem (a + b.len) bs e := Iff.rfl

theorem Walk.end_eq (h : Walk mem a bs e) : e = a + span bs := by
  induction bs generalizing a with
  | nil => exact h.symm
  | cons b bs ih =>
      rw [ih h.2.2.2, span_cons, Nat.add_assoc]

theorem walk_append : Walk mem a (bs ++ cs) e ↔
    Walk mem a bs (a + span bs) ∧ Walk mem (a + span bs) cs e := by
  induction bs generalizing a with
  | nil => simp [Walk]
  | cons b bs ih =>
      rw [List.cons_append, walk_cons, walk_cons, ih, span_cons, Nat.add_assoc]
      tauto

/-- A walk looks at its stretch only. -/
theorem Walk.congr (h : Walk mem a bs e) (hmem : ∀ i, a ≤ i → i < e → mem' i = mem i) :
    Walk mem' a bs e := by
  induction bs generalizing a with
  | nil => exact h
  | cons b bs ih =>
      obtain ⟨hval, hlen, hlt, hrest⟩ := h
      have hend := hrest.end_eq
      refine ⟨?_, hlen, hlt, ih hrest fun i hi => hmem i (by omega)⟩
      rw [← hval]
      exact val_congr fun i hlow hhigh => hmem i hlow (by omega)

/-- A block in use has a header. -/
theorem Walk.used_len {u : ℕ × ℕ} (hw : Walk mem a bs e) (hu : u ∈ used a bs) : 2 ≤ u.2 := by
  obtain ⟨pre, post, rfl, -⟩ := mem_used_iff.mp hu
  exact (walk_append.mp hw).2.2.1

theorem len_of_header (hval : val mem a = header b) (h : b.len < 2 ^ 15) : len mem a = b.len := by
  rw [len, hval, header]
  split
  · omega
  · omega

theorem inUse_of_header (hval : val mem a = header b) (h : b.len < 2 ^ 15) :
    InUse mem a ↔ b.inUse = true := by
  rw [InUse, hval, header]
  split
  · simp_all
  · simp_all

end Walks

/-! ## The loop -/

/-- The free run that ends at `hdr`, if `coal` is set: `prev` is a header in front of `hdr` and says
how long it is. -/
def Coal (mem : Memory) (hdr : ℕ) : Option ℕ → Prop
  | none => True
  | some prev => prev + 2 ≤ hdr ∧ val mem prev = hdr - prev ∧ hdr < 2 ^ 15

/-- Where the run begins, or the next one would. -/
def base (coal : Option ℕ) (hdr : ℕ) : ℕ := coal.getD hdr

/-- The length of the run. -/
def runLen (coal : Option ℕ) (hdr : ℕ) : Option ℕ := coal.map fun prev => hdr - prev

section Loop

variable {mem : Memory} {coal : Option ℕ} {hdr size e : ℕ} {bs : List Block}

theorem Coal.base_add (h : Coal mem hdr coal) : base coal hdr + (runLen coal hdr).getD 0 = hdr := by
  cases coal with
  | none => rfl
  | some prev =>
      obtain ⟨hle, -, -⟩ := h
      simp only [base, runLen, Option.getD_some, Option.map_some]
      omega

theorem Coal.walk (h : Coal mem hdr coal) :
    Walk mem (base coal hdr) (grown (runLen coal hdr)) hdr := by
  cases coal with
  | none => rfl
  | some prev =>
      obtain ⟨hle, hval, hlt⟩ := h
      refine ⟨by simpa [header, base] using hval, by simp; omega, by simp; omega, ?_⟩
      simp only [base, Option.getD_some, Walk]
      omega

theorem visit_inUse (h : InUse mem hdr) : visit size mem coal hdr = (mem, none, none) := by
  unfold visit
  rw [if_pos h]

/-- A visit to a free block extends the run by it, and changes nothing but the header of the run. -/
theorem visit_free (size : ℕ) (hcoal : Coal mem hdr coal) (hfree : ¬ InUse mem hdr)
    (hlt : hdr + len mem hdr < 2 ^ 15) : ∃ mem',
      visit size mem coal hdr =
        (if size ≤ (runLen coal hdr).getD 0 + len mem hdr then (mem', some (base coal hdr), coal)
          else (mem', none, some (base coal hdr))) ∧
      val mem' (base coal hdr) = (runLen coal hdr).getD 0 + len mem hdr ∧
      len mem' hdr = len mem hdr ∧
      ∀ i, i < base coal hdr ∨ base coal hdr + 2 ≤ i → mem' i = mem i := by
  unfold visit
  rw [if_neg hfree]
  cases coal with
  | none =>
      have hval : val mem hdr = len mem hdr := by
        simp only [InUse, len] at hfree ⊢
        omega
      exact ⟨mem, by simp [base, runLen], by simpa [base, runLen] using hval, rfl, fun _ _ => rfl⟩
  | some prev =>
      obtain ⟨hle, hval, -⟩ := hcoal
      have hprev : len mem prev = hdr - prev := by
        rw [len, hval]
        omega
      have hnot : ¬ InUse mem prev := by
        rw [InUse, hval]
        omega
      have hgrown : setLen mem prev (len mem prev + len mem hdr) =
          setVal mem prev (hdr - prev + len mem hdr) := by
        rw [setLen, if_neg hnot, hprev, Nat.add_zero, Nat.mod_eq_of_lt (by omega)]
      have hnew : val (setVal mem prev (hdr - prev + len mem hdr)) prev =
          hdr - prev + len mem hdr := val_setVal (by omega)
      have hnewLen : len (setVal mem prev (hdr - prev + len mem hdr)) prev =
          hdr - prev + len mem hdr := by
        rw [len, hnew, Nat.mod_eq_of_lt (by omega)]
      refine ⟨setVal mem prev (hdr - prev + len mem hdr), ?_, ?_, ?_, ?_⟩
      · simp only [hgrown, hnewLen, base, runLen, Option.getD_some, Option.map_some]
        rfl
      · simpa [base, runLen] using hnew
      · rw [len, len, val_setVal_of_ne (by omega)]
      · intro i hi
        exact setVal_apply hi

/-- The row that a search leaves while nothing is cut. -/
def kept : List Block × Option (ℕ × List Block) → List Block := row fun n => [⟨n, false⟩]

theorem row_append (place : ℕ → List Block) (xs passed : List Block)
    (found : Option (ℕ × List Block)) :
    row place (xs ++ passed, found) = xs ++ row place (passed, found) := by
  cases found with
  | none => rfl
  | some f => simp [row]

/-- What the loop leaves, from `hdr` on: it found what the search of the row finds, merged the
headers as the search does, and changed no byte of a block in use. -/
structure Searched (size : ℕ) (mem : Memory) (coal : Option ℕ) (hdr : ℕ) (bs : List Block) (e : ℕ)
    (mem' : Memory) (found : Option ℕ) : Prop where
  found_eq : found = (search size (runLen coal hdr) bs).2.map fun _ =>
    base coal hdr + span (search size (runLen coal hdr) bs).1
  walk : Walk mem' (base coal hdr) (kept (search size (runLen coal hdr) bs)) e
  frame : ∀ i, i < base coal hdr ∨ e ≤ i ∨ (∃ u ∈ used hdr bs, u.1 ≤ i ∧ i < u.1 + u.2) →
    mem' i = mem i

/-- Behind the last block. -/
theorem searched_nil (hcoal : Coal mem e coal) : Searched size mem coal e [] e mem none where
  found_eq := rfl
  walk := hcoal.walk
  frame _ _ := rfl

variable {b : Block} {mem' : Memory} {found : Option ℕ}

/-- A block in use ends the run in front of it. -/
theorem Searched.of_inUse (hcoal : Coal mem hdr coal) (hb : b.inUse = true)
    (hw : Walk mem hdr (b :: bs) e) (h : Searched size mem none (hdr + b.len) bs e mem' found) :
    Searched size mem coal hdr (b :: bs) e mem' found := by
  have hbase := hcoal.base_add
  obtain ⟨hval, hlen, hlt, hrest⟩ := hw
  have hend := hrest.end_eq
  have hbefore : ∀ i, i < hdr + b.len → mem' i = mem i := fun i hi => h.frame i (Or.inl hi)
  refine ⟨?_, ?_, ?_⟩
  · rw [h.found_eq, search_inUse hb]
    have hplace : ∀ n, base coal hdr + ((runLen coal hdr).getD 0 + (b.len + n)) =
        hdr + b.len + n := by
      omega
    simp only [span_append, span_cons, span_grown, hplace]
    rfl
  · have hgrown : Walk mem' (base coal hdr) (grown (runLen coal hdr)) hdr :=
      hcoal.walk.congr fun i _ hi => hbefore i (by omega)
    rw [search_inUse hb, kept, row_append, walk_append, span_grown, hbase]
    refine ⟨hgrown, ?_⟩
    have hcons : row (fun n => [⟨n, false⟩])
        (b :: (search size none bs).1, (search size none bs).2) =
        b :: kept (search size none bs) := row_append _ [b] _ _
    rw [hcons, walk_cons, val_congr fun i _ hi => hbefore i (by omega)]
    exact ⟨hval, hlen, hlt, h.walk⟩
  · rintro i (hi | hi | ⟨u, hu, hi⟩)
    · exact hbefore i (by omega)
    · exact h.frame i (Or.inr (Or.inl hi))
    · rw [used, if_pos hb] at hu
      rcases List.mem_cons.mp hu with rfl | hu
      · exact hbefore i hi.2
      · exact h.frame i (Or.inr (Or.inr ⟨u, hu, hi⟩))

/-- Where bytes are kept if only the header of a run in front of `hdr + b.len` is written. -/
theorem used_behind (hb : ¬ b.inUse = true) {i : ℕ}
    (hi : i < base coal hdr ∨ e ≤ i ∨ ∃ u ∈ used hdr (b :: bs), u.1 ≤ i ∧ i < u.1 + u.2) :
    i < base coal hdr ∨ e ≤ i ∨
      hdr + b.len ≤ i ∧ ∃ u ∈ used (hdr + b.len) bs, u.1 ≤ i ∧ i < u.1 + u.2 := by
  rw [used, if_neg hb] at hi
  rcases hi with hi | hi | ⟨u, hu, hi⟩
  · exact Or.inl hi
  · exact Or.inr (Or.inl hi)
  · have hbounds := used_bounds hu
    exact Or.inr (Or.inr ⟨by omega, u, hu, hi⟩)

/-- A free block that makes the run large enough. -/
theorem searched_hit {mem₁ : Memory} (hcoal : Coal mem hdr coal) (hb : ¬ b.inUse = true)
    (hw : Walk mem hdr (b :: bs) e) (he : e < 2 ^ 15)
    (hsize : size ≤ (runLen coal hdr).getD 0 + b.len)
    (hval₁ : val mem₁ (base coal hdr) = (runLen coal hdr).getD 0 + b.len)
    (hmem₁ : ∀ i, i < base coal hdr ∨ base coal hdr + 2 ≤ i → mem₁ i = mem i) :
    Searched size mem coal hdr (b :: bs) e mem₁ (some (base coal hdr)) := by
  have hbase := hcoal.base_add
  obtain ⟨hval, hlen, hlt, hrest⟩ := hw
  have hend := hrest.end_eq
  refine ⟨?_, ?_, ?_⟩
  · rw [search_free hb, if_pos hsize]
    rfl
  · rw [search_free hb, if_pos hsize]
    refine ⟨by simpa [header] using hval₁, by simp; omega, by simp; omega, ?_⟩
    have hplace : base coal hdr + ((runLen coal hdr).getD 0 + b.len) = hdr + b.len := by omega
    rw [hplace]
    exact hrest.congr fun i hi _ => hmem₁ i (by omega)
  · intro i hi
    rcases used_behind hb hi with hi | hi | ⟨hi, -⟩
    · exact hmem₁ i (Or.inl hi)
    · exact hmem₁ i (by omega)
    · exact hmem₁ i (by omega)

/-- A free block that does not: the run has grown by it. -/
theorem Searched.of_miss {mem₁ : Memory} (hcoal : Coal mem hdr coal) (hb : ¬ b.inUse = true)
    (hw : Walk mem hdr (b :: bs) e) (hsize : ¬ size ≤ (runLen coal hdr).getD 0 + b.len)
    (hmem₁ : ∀ i, i < base coal hdr ∨ base coal hdr + 2 ≤ i → mem₁ i = mem i)
    (h : Searched size mem₁ (some (base coal hdr)) (hdr + b.len) bs e mem' found) :
    Searched size mem coal hdr (b :: bs) e mem' found := by
  have hbase := hcoal.base_add
  obtain ⟨-, hlen, -, hrest⟩ := hw
  have hend := hrest.end_eq
  have hrun : runLen (some (base coal hdr)) (hdr + b.len) =
      some ((runLen coal hdr).getD 0 + b.len) := by
    simp only [runLen, Option.map_some] at hbase ⊢
    congr 1
    omega
  have hsame : base (some (base coal hdr)) (hdr + b.len) = base coal hdr := rfl
  obtain ⟨hfound, hwalk, hframe⟩ := h
  rw [hrun, hsame] at hfound hwalk
  rw [hsame] at hframe
  refine ⟨?_, ?_, ?_⟩
  · rw [search_free hb, if_neg hsize]
    exact hfound
  · rw [search_free hb, if_neg hsize]
    exact hwalk
  · intro i hi
    rcases used_behind hb hi with hi | hi | ⟨hi, hu⟩
    · rw [hframe i (Or.inl hi), hmem₁ i (Or.inl hi)]
    · rw [hframe i (Or.inr (Or.inl hi)), hmem₁ i (by omega)]
    · rw [hframe i (Or.inr (Or.inr hu)), hmem₁ i (by omega)]

/-- **The loop is a first fit** on the row of blocks, and returns within as many rounds as there are
blocks. -/
theorem osalMemSearch_walk (size : ℕ) {fuel : ℕ} (hw : Walk mem hdr bs e) (hne : bs ≠ [])
    (hend : val mem e = 0) (he : e < 2 ^ 15) (hfuel : bs.length ≤ fuel)
    (hcoal : Coal mem hdr coal) :
    ∃ mem' found, osalMemSearch size fuel mem coal hdr = some (mem', found) ∧
      Searched size mem coal hdr bs e mem' found := by
  induction bs generalizing mem coal hdr fuel with
  | nil => exact absurd rfl hne
  | cons b bs ih =>
      obtain ⟨hval, hlen, hlt, hrest⟩ := id hw
      obtain ⟨fuel, rfl⟩ : ∃ k, fuel = k + 1 := Nat.exists_eq_succ_of_ne_zero (by
        rw [List.length_cons] at hfuel
        omega)
      have hb := len_of_header hval hlt
      have hbase := hcoal.base_add
      have hspan := hrest.end_eq
      -- The rounds behind this block, over a memory in which the blocks behind it are the same.
      have hbehind : ∀ mem₁ coal₁, (∀ i, hdr + b.len ≤ i → mem₁ i = mem i) →
          Coal mem₁ (hdr + b.len) coal₁ → ∃ mem' found,
            (if val mem₁ (hdr + b.len) = 0 then some (mem₁, none)
              else osalMemSearch size fuel mem₁ coal₁ (hdr + b.len)) = some (mem', found) ∧
            Searched size mem₁ coal₁ (hdr + b.len) bs e mem' found := by
        intro mem₁ coal₁ hmem₁ hcoal₁
        have hwalk₁ : Walk mem₁ (hdr + b.len) bs e := hrest.congr fun i hi _ => hmem₁ i hi
        have hend₁ : val mem₁ e = 0 := by
          rw [val_congr fun i hi _ => hmem₁ i (by omega), hend]
        cases bs with
        | nil =>
            obtain rfl : hdr + b.len = e := hrest
            rw [if_pos hend₁]
            exact ⟨mem₁, none, rfl, searched_nil hcoal₁⟩
        | cons c cs =>
            have hheader : val mem₁ (hdr + b.len) ≠ 0 := by
              have hc := hwalk₁.2.1
              rw [hwalk₁.1, header]
              omega
            rw [if_neg hheader]
            exact ih hwalk₁ (by simp) hend₁ (Nat.le_of_succ_le_succ hfuel) hcoal₁
      by_cases hinUse : b.inUse = true
      · obtain ⟨mem', found, hrun, hsearched⟩ := hbehind mem none (fun _ _ => rfl) trivial
        refine ⟨mem', found, ?_, hsearched.of_inUse hcoal hinUse hw⟩
        rw [osalMemSearch, visit_inUse ((inUse_of_header hval hlt).mpr hinUse)]
        simpa only [hb] using hrun
      · obtain ⟨mem₁, hvisit, hval₁, hlen₁, hmem₁⟩ := visit_free size hcoal
          (fun h => hinUse ((inUse_of_header hval hlt).mp h)) (by omega)
        rw [osalMemSearch, hvisit]
        rw [hb] at hval₁ hlen₁ ⊢
        by_cases hsize : size ≤ (runLen coal hdr).getD 0 + b.len
        · rw [if_pos hsize]
          exact ⟨mem₁, _, rfl, searched_hit hcoal hinUse hw he hsize hval₁ hmem₁⟩
        · have hcoal₁ : Coal mem₁ (hdr + b.len) (some (base coal hdr)) :=
            ⟨by omega, by omega, by omega⟩
          obtain ⟨mem', found, hrun, hsearched⟩ :=
            hbehind mem₁ (some (base coal hdr)) (fun i hi => hmem₁ i (by omega)) hcoal₁
          refine ⟨mem', found, ?_, hsearched.of_miss hcoal hinUse hw hsize hmem₁⟩
          rw [if_neg hsize]
          simpa only [hlen₁] using hrun

end Loop

/-! ## The row and the functions -/

/-- The heap is a row of blocks from its first byte to the header that ends it.  The header behind
the bucket is a block in use, and `ff1` is the end of some blocks at most as far. -/
structure Rows (L : HeapLayout) (h : Heap) (bs : List Block) : Prop where
  walk : Walk h.mem 0 bs L.lastblk
  last : val h.mem L.lastblk = 0
  blocked : (L.bucket, 2) ∈ used 0 bs
  ff1_le : h.ff1 ≤ L.bucket
  ff1_split : ∃ pre post, bs = pre ++ post ∧ span pre = h.ff1

section Functions

variable {L : HeapLayout} {h : Heap} {bs : List Block} {mem : Memory} {hdr size n e : ℕ}
  {rest : List Block}

/-- Both places where a search may begin are between two blocks, and not behind the last. -/
theorem Rows.start_split (hr : Rows L h bs) (size : ℕ) : ∃ front mid post,
    bs = (front ++ mid) ++ post ∧ span front = h.ff1 ∧ span (front ++ mid) = h.start L size ∧
      post ≠ [] := by
  have hspan : span bs = L.lastblk := by
    rw [hr.walk.end_eq, Nat.zero_add]
  have hlast : L.bucket + 2 < L.lastblk := by
    have hlt := L.bucket_lt
    rw [HeapLayout.lastblk]
    omega
  obtain ⟨front, behind, hsplit, hff1⟩ := hr.ff1_split
  have hle := hr.ff1_le
  rw [Heap.start]
  split
  · refine ⟨front, [], behind, by rw [List.append_nil, hsplit], hff1,
      by rw [List.append_nil, hff1], ?_⟩
    rintro rfl
    rw [hsplit, List.append_nil] at hspan
    omega
  · obtain ⟨pre, post, hbs, hplace⟩ := mem_used_iff.mp hr.blocked
    have hbig : bs = (pre ++ [⟨2, true⟩]) ++ post := by
      rw [hbs, List.append_assoc]
      rfl
    have hbigSpan : span (pre ++ [⟨2, true⟩]) = L.bigblk := by
      simp only [span_append, span_cons, span_nil, HeapLayout.bigblk]
      omega
    -- `ff1` is in front of the blocking header, so its blocks come first.
    have hprefix : front <+: pre ++ [⟨2, true⟩] := by
      rcases List.prefix_or_prefix_of_prefix ⟨behind, hsplit.symm⟩ ⟨post, hbig.symm⟩ with h' | h'
      · exact h'
      · obtain ⟨more, rfl⟩ := h'
        rw [span_append, hbigSpan, HeapLayout.bigblk] at hff1
        omega
    obtain ⟨mid, hmid⟩ := hprefix
    refine ⟨front, mid, post, by rw [hmid, hbig], hff1, by rw [hmid, hbigSpan], ?_⟩
    rintro rfl
    rw [hbig, List.append_nil, hbigSpan, HeapLayout.bigblk] at hspan
    omega

/-- What is written to the block that was found stays in it. -/
theorem claim_walk (hw : Walk mem hdr (⟨n, false⟩ :: rest) e) (hpos : 2 ≤ size) (hsize : size ≤ n) :
    Walk (claim mem hdr size) hdr (cut size minBlksz n ++ rest) e ∧
      ∀ i, i < hdr ∨ hdr + n ≤ i → claim mem hdr size i = mem i := by
  obtain ⟨hval, hlen, hlt, hrest⟩ := hw
  have hn : len mem hdr = n := len_of_header hval hlt
  have hend := hrest.end_eq
  dsimp only at hlt hlen hend hrest
  rw [claim, cut, hn]
  split
  case isTrue hmin =>
    rw [minBlksz] at hmin
    have hor : size ||| 2 ^ 15 = size + 2 ^ 15 := by
      have hadd := Nat.two_pow_add_eq_or_of_lt (by omega : size < 2 ^ 15) 1
      rw [mul_one] at hadd
      rw [Nat.or_comm, ← hadd, Nat.add_comm]
    have hframe : ∀ i, i < hdr ∨ hdr + n ≤ i →
        setVal (setVal mem (hdr + size) (n - size)) hdr (size ||| 2 ^ 15) i = mem i := by
      intro i hi
      rw [setVal_apply (by omega), setVal_apply (by omega)]
    refine ⟨⟨?_, hpos, by dsimp only; omega, ?_, by dsimp only; omega, by dsimp only; omega, ?_⟩,
      hframe⟩
    · rw [hor, val_setVal (by omega)]
      rfl
    · dsimp only
      rw [val_setVal_of_ne (by omega), val_setVal (by omega)]
      rfl
    · have hplace : hdr + size + (n - size) = hdr + n := by omega
      rw [hplace]
      exact hrest.congr fun i hi _ => hframe i (Or.inr hi)
  case isFalse _ =>
    have hframe : ∀ i, i < hdr ∨ hdr + n ≤ i → setInUse mem hdr true i = mem i := by
      intro i hi
      exact setVal_apply (by omega)
    refine ⟨⟨?_, hlen, hlt, hrest.congr fun i hi _ => hframe i (Or.inr hi)⟩, hframe⟩
    rw [setInUse, hn, if_pos rfl, val_setVal (by omega)]
    rfl

/-- What `osal_mem_alloc` does with a row of blocks: it keeps every byte of every block in use, and
either finds that each stretch of the size asked for meets one, or makes one more. -/
structure Allocated (L : HeapLayout) (n : ℕ) (h : Heap) (bs : List Block) (h' : Heap) (p : Option ℕ)
    (bs' : List Block) : Prop where
  rows : Rows L h' bs'
  kicked : h'.kicked = h.kicked
  frame : ∀ u ∈ used 0 bs, ∀ i, u.1 ≤ i → i < u.1 + u.2 → h'.mem i = h.mem i
  failed : p = none → used 0 bs' = used 0 bs ∧
    ∀ x, h.start L (n + 2) ≤ x → x + (n + 2) ≤ L.lastblk →
      ∃ u ∈ used 0 bs, u.1 < x + (n + 2) ∧ x < u.1 + u.2
  found : ∀ q, p = some q → ∃ hdr m xs ys, q = hdr + 2 ∧ h.start L (n + 2) ≤ hdr ∧ n + 2 ≤ m ∧
    m < n + 2 + minBlksz ∧ used 0 bs = xs ++ ys ∧ used 0 bs' = xs ++ (hdr, m) :: ys

/-- The blocks in use of a row that is searched from `a` on. -/
theorem used_search {front post : List Block} (hbs : bs = front ++ post) :
    used 0 bs = used 0 front ++ used (span front) post := by
  rw [hbs, used_append, Nat.zero_add]

/-- A search that fails only merges free blocks. -/
theorem allocated_none {front mid post passed : List Block} {mem' : Memory}
    (hr : Rows L h bs) (hbs : bs = (front ++ mid) ++ post) (hfront : span front = h.ff1)
    (hstart : span (front ++ mid) = h.start L (n + 2))
    (hs : Searched (n + 2) h.mem none (h.start L (n + 2)) post L.lastblk mem' none)
    (hnone : search (n + 2) none post = (passed, none)) :
    Allocated L n h bs { h with mem := mem' } none ((front ++ mid) ++ passed) := by
  have hold := used_search hbs
  have hused : used 0 ((front ++ mid) ++ passed) = used 0 bs := by
    have hrest := (search_failed hnone (span (front ++ mid))).2
    simp only [Option.getD_none, Nat.add_zero] at hrest
    rw [used_search rfl, hold, hrest]
  rw [hstart] at hold
  have hbefore : ∀ i, i < h.start L (n + 2) → mem' i = h.mem i := fun i hi => hs.frame i (Or.inl hi)
  have hw := hr.walk
  rw [hbs, walk_append, Nat.zero_add, hstart] at hw
  refine ⟨⟨?_, ?_, ?_, hr.ff1_le, ⟨front, mid ++ passed, by rw [List.append_assoc], hfront⟩⟩, rfl,
    ?_, fun _ => ⟨hused, fun x hx hend => ?_⟩, fun q hq => absurd hq.symm (Option.some_ne_none q)⟩
  · rw [walk_append, Nat.zero_add, hstart]
    have hwalk := hs.walk
    rw [show runLen none (h.start L (n + 2)) = none from rfl, hnone] at hwalk
    exact ⟨hw.1.congr fun i _ hi => hbefore i hi, hwalk⟩
  · rw [val_congr fun i hi _ => hs.frame i (Or.inr (Or.inl hi)), hr.last]
  · rw [hused]
    exact hr.blocked
  · intro u hu i hlow hhigh
    rw [hold] at hu
    rcases List.mem_append.mp hu with hu | hu
    · have hbounds := used_bounds hu
      exact hbefore i (by omega)
    · exact hs.frame i (Or.inr (Or.inr ⟨u, hu, hlow, hhigh⟩))
  · have hlast := hw.2.end_eq
    obtain ⟨u, hu, hmeets⟩ := meets_of_search_failed hnone (by simp) (a := h.start L (n + 2)) hx
      (by simp only [Option.getD_none]; omega)
    refine ⟨u, ?_, hmeets⟩
    rw [hold]
    exact List.mem_append_right _ hu

/-- A search that finds a block makes it one in use. -/
theorem allocated_some {front mid post passed : List Block} {m : ℕ} {mem' : Memory}
    (hr : Rows L h bs) (hbs : bs = (front ++ mid) ++ post) (hfront : span front = h.ff1)
    (hstart : span (front ++ mid) = h.start L (n + 2))
    (hhdr : hdr = h.start L (n + 2) + span passed)
    (hs : Searched (n + 2) h.mem none (h.start L (n + 2)) post L.lastblk mem' (some hdr))
    (hsome : search (n + 2) none post = (passed, some (m, rest))) :
    Allocated L n h bs
      { h with
        mem := claim mem' hdr (n + 2)
        ff1 := if h.kicked = true ∧ h.ff1 = hdr then hdr + len (claim mem' hdr (n + 2)) hdr
          else h.ff1 }
      (some (hdr + 2))
      ((front ++ mid) ++ row (cut (n + 2) minBlksz) (passed, some (m, rest))) := by
  have hold := used_search hbs
  obtain ⟨hsize, hspan, hpassed⟩ := search_found hsome (h.start L (n + 2))
  simp only [Option.getD_none, Nat.add_zero] at hpassed
  rw [hstart, ← hpassed, ← hhdr] at hold
  -- The headers after the search, and after the block is claimed.
  have hw := hr.walk
  rw [hbs, walk_append, Nat.zero_add, hstart] at hw
  have hwalk := hs.walk
  rw [show runLen none (h.start L (n + 2)) = none from rfl, hsome] at hwalk
  have hkept : Walk mem' (h.start L (n + 2)) (passed ++ (⟨m, false⟩ :: rest)) L.lastblk := hwalk
  rw [walk_append, ← hhdr] at hkept
  obtain ⟨hclaim, hframe⟩ := claim_walk hkept.2 (by omega) hsize
  have hlast := hkept.2.end_eq
  rw [span_cons] at hlast
  dsimp only at hlast
  have hbefore : ∀ i, i < h.start L (n + 2) → claim mem' hdr (n + 2) i = h.mem i := fun i hi => by
    rw [hframe i (by omega), hs.frame i (Or.inl hi)]
  obtain ⟨k, frees, hcut, hk, hless, hnew⟩ := used_row_cut minBlksz hsome (h.start L (n + 2))
  rw [← hhdr] at hnew
  rw [hcut] at hclaim
  have hlen : len (claim mem' hdr (n + 2)) hdr = k := len_of_header hclaim.1 hclaim.2.2.1
  have hused : used 0 ((front ++ mid) ++ row (cut (n + 2) minBlksz) (passed, some (m, rest))) =
      (used 0 (front ++ mid) ++ used (h.start L (n + 2)) passed) ++
        (hdr, k) :: used (hdr + m) rest := by
    rw [used_search rfl, hstart, hnew, List.append_assoc]
  have hblocked : (L.bucket, 2) ∈ (used 0 (front ++ mid) ++ used (h.start L (n + 2)) passed) ++
      used (hdr + m) rest := by
    rw [List.append_assoc, ← hold]
    exact hr.blocked
  have hrow : (front ++ mid) ++ row (cut (n + 2) minBlksz) (passed, some (m, rest)) =
      ((front ++ mid) ++ passed ++ [⟨k, true⟩]) ++ (frees ++ rest) := by
    rw [row, hcut]
    simp
  have hend : val (claim mem' hdr (n + 2)) L.lastblk = 0 := by
    rw [val_congr fun i hi _ => ?_, hr.last]
    rw [hframe i (by omega), hs.frame i (Or.inr (Or.inl hi))]
  have hkeep : ∀ u ∈ used 0 bs, ∀ i, u.1 ≤ i → i < u.1 + u.2 →
      claim mem' hdr (n + 2) i = h.mem i := by
    intro u hu i hlow hhigh
    rw [hold] at hu
    rcases List.mem_append.mp hu with hu | hu
    · have hbounds := used_bounds hu
      exact hbefore i (by omega)
    · have hout : i < hdr ∨ hdr + m ≤ i := by
        rcases List.mem_append.mp hu with hu | hu
        · have hbounds := used_bounds hu
          exact Or.inl (by omega)
        · have hbounds := used_bounds hu
          exact Or.inr (by omega)
      rw [hframe i hout, hs.frame i (Or.inr (Or.inr ⟨u, ?_, hlow, hhigh⟩))]
      rw [← hpassed, ← hhdr]
      exact hu
  refine ⟨⟨?_, hend, ?_, ?_, ?_⟩, rfl, hkeep, fun hp => absurd hp (Option.some_ne_none _),
    fun q hq => ?_⟩
  · rw [walk_append, Nat.zero_add, hstart]
    refine ⟨hw.1.congr fun i _ hi => hbefore i hi, ?_⟩
    rw [row, walk_append, ← hhdr, hcut]
    exact ⟨hkept.1.congr fun i _ hi => hframe i (Or.inl hi), hclaim⟩
  · rw [hused]
    rcases List.mem_append.mp hblocked with hmem | hmem
    · exact List.mem_append_left _ hmem
    · exact List.mem_append_right _ (List.mem_cons_of_mem _ hmem)
  · dsimp only
    split
    case isTrue hkick =>
      rw [hlen]
      have hle := hr.ff1_le
      have hapart := used_apart hused hblocked
      dsimp only at hapart
      omega
    case isFalse _ => exact hr.ff1_le
  · dsimp only
    split
    case isTrue _ =>
      refine ⟨_, _, hrow, ?_⟩
      simp only [span_append, span_cons, span_nil] at hstart ⊢
      omega
    case isFalse _ => exact ⟨front, mid ++ _, by rw [List.append_assoc], hfront⟩
  · obtain rfl := Option.some.inj hq
    refine ⟨hdr, k, _, _, rfl, by omega, hk, ?_, ?_, hused⟩
    · rw [minBlksz] at hless ⊢
      omega
    · rw [hold, List.append_assoc]

/-- Every block has a header. -/
theorem Walk.length_le {a : ℕ} (hw : Walk mem a bs e) : bs.length ≤ span bs := by
  induction bs generalizing a with
  | nil => exact le_refl 0
  | cons b bs ih =>
      have hlen := hw.2.1
      have hrest := ih hw.2.2.2
      rw [List.length_cons, span_cons]
      omega

/-- **`osal_mem_alloc` on a row of blocks**: it returns, and what it returns is a block of its own.
-/
theorem osalMemAlloc_rows (hr : Rows L h bs) (hn : n + 2 < 2 ^ 16) : ∃ h' p bs',
    osalMemAlloc L n h = some (h', p) ∧ Allocated L n h bs h' p bs' := by
  obtain ⟨front, mid, post, hbs, hfront, hstart, hne⟩ := hr.start_split (n + 2)
  have hlt : L.lastblk < 2 ^ 15 := lt_of_le_of_lt (Nat.sub_le _ _) L.maxMemHeap_lt
  have hw := hr.walk
  rw [hbs, walk_append, Nat.zero_add, hstart] at hw
  have hfuel : post.length ≤ L.maxMemHeap := by
    have hlen := hw.2.length_le
    have hend := hw.2.end_eq
    rw [HeapLayout.lastblk] at hend
    omega
  have hcoal : Coal h.mem (h.start L (n + 2)) none := trivial
  obtain ⟨mem', found, hrun, hs⟩ := osalMemSearch_walk (n + 2) hw.2 hne hr.last hlt hfuel hcoal
  have hrequest : request n = n + 2 := Nat.mod_eq_of_lt hn
  unfold osalMemAlloc
  rw [hrequest, hrun]
  have hfound := hs.found_eq
  rw [show runLen none (h.start L (n + 2)) = none from rfl] at hfound
  rcases hsearch : search (n + 2) none post with ⟨passed, _ | ⟨m, rest⟩⟩
  · rw [hsearch] at hfound
    obtain rfl : found = none := hfound
    exact ⟨_, _, _, rfl, allocated_none hr hbs hfront hstart hs hsearch⟩
  · rw [hsearch] at hfound
    obtain rfl : found = some (h.start L (n + 2) + span passed) := hfound
    exact ⟨_, _, _, rfl, allocated_some hr hbs hfront hstart rfl hs hsearch⟩

/-- What `osal_mem_free` does with a row of blocks: the block is in use no longer, and nothing else
has changed. -/
structure Freed (L : HeapLayout) (u : ℕ × ℕ) (h : Heap) (bs : List Block) (h' : Heap)
    (bs' : List Block) : Prop where
  rows : Rows L h' bs'
  kicked : h'.kicked = h.kicked
  frame : ∀ i, i < u.1 ∨ u.1 + 2 ≤ i → h'.mem i = h.mem i
  mem_used : ∀ x, x ∈ used 0 bs' ↔ x ∈ used 0 bs ∧ x.1 ≠ u.1

/-- **`osal_mem_free` on a row of blocks.** -/
theorem osalMemFree_rows {u : ℕ × ℕ} (hr : Rows L h bs) (hu : u ∈ used 0 bs)
    (hne : u.1 ≠ L.bucket) : ∃ bs', Freed L u h bs (osalMemFree (u.1 + 2) h) bs' := by
  obtain ⟨pre, post, hbs, hplace⟩ := mem_used_iff.mp hu
  rw [Nat.zero_add] at hplace
  have hw := hr.walk
  rw [hbs, walk_append, Nat.zero_add, ← hplace] at hw
  obtain ⟨hpre, hval, hlen, hlt, hpost⟩ := hw
  dsimp only at hlen hlt hpost
  have hlast := hpost.end_eq
  have hpos : ∀ b ∈ pre, 0 < b.len := by
    intro b hb
    obtain ⟨xs, ys, rfl⟩ := List.append_of_mem hb
    have hb := (walk_append.mp hpre).2.2.1
    omega
  have hframe : ∀ i, i < u.1 ∨ u.1 + 2 ≤ i → (osalMemFree (u.1 + 2) h).mem i = h.mem i :=
    fun i hi => setVal_apply hi
  have hmem : ∀ x, x ∈ used 0 (pre ++ ⟨u.2, false⟩ :: post) ↔ x ∈ used 0 bs ∧ x.1 ≠ u.1 := by
    intro x
    rw [mem_used_release hpos (by omega), hbs, hplace, Nat.zero_add]
  refine ⟨pre ++ ⟨u.2, false⟩ :: post, ⟨?_, ?_, ?_, ?_, ?_⟩, rfl, hframe, hmem⟩
  · rw [walk_append, Nat.zero_add, ← hplace]
    refine ⟨hpre.congr fun i _ hi => hframe i (Or.inl hi), ?_, hlen, hlt,
      hpost.congr fun i hi _ => hframe i (Or.inr (by omega))⟩
    have hheader : len h.mem u.1 = u.2 := len_of_header hval hlt
    have hnew : (osalMemFree (u.1 + 2) h).mem = setVal h.mem u.1 u.2 := by
      rw [← hheader]
      rfl
    rw [hnew, val_setVal (by omega)]
    rfl
  · rw [val_congr fun i hi _ => hframe i (Or.inr (by omega)), hr.last]
  · exact (hmem _).mpr ⟨hr.blocked, fun h => hne h.symm⟩
  · have hle := hr.ff1_le
    simp only [osalMemFree]
    split
    · omega
    · exact hle
  · obtain ⟨front, behind, hsplit, hff1⟩ := hr.ff1_split
    simp only [osalMemFree, Nat.add_sub_cancel]
    split
    case isTrue _ => exact ⟨pre, _, rfl, hplace.symm⟩
    case isFalse hle =>
      -- Of the two rows that end where `ff1` and the block are, one is the beginning of the other.
      rcases List.prefix_or_prefix_of_prefix ⟨behind, hsplit.symm⟩ ⟨_, hbs.symm⟩ with h' | h'
      · obtain ⟨more, rfl⟩ := h'
        exact ⟨front, more ++ _, by rw [List.append_assoc], hff1⟩
      · obtain ⟨more, rfl⟩ := h'
        rw [span_append] at hff1
        exact ⟨pre, _, rfl, by omega⟩

/-- **`osal_mem_kick` on a row of blocks**, if the byte it gets is in the bucket: the blocks in use
are the same. -/
theorem osalMemKick_rows {h' : Heap} {tmp : ℕ} (hr : Rows L h bs)
    (hkick : osalMemKick L h = some (h', tmp)) (hbucket : tmp ≤ L.bucket) : ∃ bs',
    Rows L h' bs' ∧ (∀ x, x ∈ used 0 bs' ↔ x ∈ used 0 bs) ∧
      ∀ u ∈ used 0 bs, ∀ i, u.1 ≤ i → i < u.1 + u.2 → h'.mem i = h.mem i := by
  obtain ⟨h₁, p, bs₁, hrun, ha⟩ := osalMemAlloc_rows (n := 1) hr (by norm_num)
  rw [osalMemKick, hrun] at hkick
  cases p with
  | none => cases hkick
  | some q =>
      obtain ⟨hh', rfl⟩ := Prod.mk.inj (Option.some.inj hkick)
      obtain ⟨hdr, m, xs, ys, rfl, -, hm, -, hold, hnew⟩ := ha.found q rfl
      have hu : (hdr, m) ∈ used 0 bs₁ := by
        rw [hnew]
        exact List.mem_append_right _ List.mem_cons_self
      obtain ⟨pre, post, hsplit, hplace⟩ := mem_used_iff.mp hu
      have hr₁ : Rows L { h₁ with ff1 := hdr } bs₁ :=
        ⟨ha.rows.walk, ha.rows.last, ha.rows.blocked, by dsimp only; omega,
          pre, _, hsplit, by dsimp only at hplace ⊢; omega⟩
      have hapart : ∀ x ∈ used 0 bs, x.1 + x.2 ≤ hdr ∨ hdr + m ≤ x.1 := by
        intro x hx
        rw [hold] at hx
        exact used_apart hnew hx
      obtain ⟨bs', hfreed⟩ := osalMemFree_rows hr₁ hu (by dsimp only; omega)
      refine ⟨bs', ?_, ?_, ?_⟩
      · rw [← hh']
        exact ⟨hfreed.rows.walk, hfreed.rows.last, hfreed.rows.blocked, hfreed.rows.ff1_le,
          hfreed.rows.ff1_split⟩
      · intro x
        rw [hfreed.mem_used, hnew, hold, List.mem_append, List.mem_append, List.mem_cons]
        constructor
        · rintro ⟨hx | rfl | hx, hne⟩
          · exact Or.inl hx
          · exact absurd rfl hne
          · exact Or.inr hx
        · intro hx
          have hmem : x ∈ used 0 bs := by
            rw [hold]
            exact List.mem_append.mpr hx
          have hlen := hr.walk.used_len hmem
          have hx' := hapart x hmem
          exact ⟨hx.imp_right Or.inr, by dsimp only; omega⟩
      · intro u hmem i hlow hhigh
        have hu' := hapart u hmem
        have hfree : h'.mem i = h₁.mem i := by
          rw [← hh']
          exact hfreed.frame i (by dsimp only; omega)
        rw [hfree, ha.frame u hmem i hlow hhigh]

/-- **The heap as `osal_mem_init` leaves it**: the bucket, the header that blocks it, and the
wilderness. -/
theorem osalMemInit_rows (L : HeapLayout) (g : Memory) :
    Rows L (osalMemInit L g)
      [⟨L.bucket, false⟩, ⟨2, true⟩, ⟨L.maxMemHeap - L.bucket - 4, false⟩] := by
  have hpos := L.bucket_pos
  have hlt := L.bucket_lt
  have hmax := L.maxMemHeap_lt
  have heven := L.bucket_even
  have heven' := L.maxMemHeap_even
  have hblock : 2 ||| 2 ^ 15 = 2 ^ 15 + 2 := by decide
  have hbig : val (osalMemInit L g).mem L.bigblk = L.maxMemHeap - L.bucket - 4 :=
    val_setVal (by omega)
  have hbucket : val (osalMemInit L g).mem L.bucket = 2 ^ 15 + 2 := by
    rw [osalMemInit, val_setVal_of_ne (by rw [HeapLayout.bigblk]; omega), hblock]
    exact val_setVal (by norm_num)
  have hfirst : val (osalMemInit L g).mem 0 = L.bucket := by
    rw [osalMemInit, val_setVal_of_ne (by rw [HeapLayout.bigblk]; omega),
      val_setVal_of_ne (by omega), val_setVal (by omega)]
  have hlast : val (osalMemInit L g).mem L.lastblk = 0 := by
    rw [osalMemInit, val_setVal_of_ne (by rw [HeapLayout.bigblk, HeapLayout.lastblk]; omega),
      val_setVal_of_ne (by rw [HeapLayout.lastblk]; omega),
      val_setVal_of_ne (by rw [HeapLayout.lastblk]; omega), val_setVal (by norm_num)]
  refine ⟨⟨hfirst, by dsimp only; omega, by dsimp only; omega, ?_, le_refl 2, by norm_num,
    ?_, by dsimp only; omega, by dsimp only; omega, ?_⟩, hlast, ?_, Nat.zero_le _,
    ⟨[], _, rfl, rfl⟩⟩
  · simpa [header, Nat.add_comm] using hbucket
  · simpa [header, HeapLayout.bigblk] using hbig
  · simp only [Walk, HeapLayout.lastblk]
    omega
  · simp [used]

end Functions

end CourseDesign.Osal
