import CourseDesign.Lib.ObjectStore
import CourseDesign.Osal.Memory

/-!
# The heap over a whole run

Any sequence of calls by clients that use only what they were given.  `osal_mem_init` comes first,
and `osal_mem_kick` at any point while a byte is still to be had in the bucket.

* `Owned` — the blocks in use are the objects of the clients and the header behind the bucket.
* `heap_step` — every call keeps it, and changes no byte of an object but the one written.
-/

namespace CourseDesign.Osal

open CourseDesign.Drivers (Memory)
open FirstFit ObjectStore

/-- The heap, and the sizes that were asked for what is allocated. -/
structure HeapState where
  heap : Heap
  live : ℕ → Option ℕ

/-- The calls, with what they return, and what a client does with the bytes it was given. -/
inductive HeapOp
  | alloc (n : ℕ) (p : Option ℕ)
  | free (p : ℕ)
  | write (p i : ℕ) (b : UInt8)
  | read (p i : ℕ) (b : UInt8)
  | kick (p : ℕ)

/-- The sizes after `osal_mem_alloc` returned `p`. -/
def granted (live : ℕ → Option ℕ) (n : ℕ) : Option ℕ → ℕ → Option ℕ
  | none => live
  | some p => Function.update live p (some n)

/-- The heap and its clients, over what the memory held. -/
def heapMachine (L : HeapLayout) (g : Memory) : Machine HeapState HeapOp where
  init := { heap := osalMemInit L g, live := fun _ => none }
  step s
    | .alloc n p => (osalMemAlloc L n s.heap).bind fun r =>
        Machine.when (r.2 = p) { heap := r.1, live := granted s.live n p }
    | .free p => Machine.when (s.live p ≠ none)
        { heap := osalMemFree p s.heap, live := Function.update s.live p none }
    | .write p i b => (s.live p).bind fun n => Machine.when (i < n)
        { s with heap := { s.heap with mem := Function.update s.heap.mem (p + i) b } }
    | .read p i b => (s.live p).bind fun n => Machine.when (i < n ∧ s.heap.mem (p + i) = b) s
    | .kick p => (osalMemKick L s.heap).bind fun r => Machine.when (r.2 = p) { s with heap := r.1 }

/-- What is asked of a call: a size that is a `uint16` with its header, and room in the bucket for
`osal_mem_kick`. -/
def Fits (L : HeapLayout) (_ : HeapState) : HeapOp → Prop
  | .alloc n _ => n + 2 < 2 ^ 16
  | .kick p => p ≤ L.bucket
  | _ => True

instance (L : HeapLayout) (s : HeapState) : (a : HeapOp) → Decidable (Fits L s a)
  | .alloc _ _ => inferInstanceAs (Decidable (_ < _))
  | .free _ => isTrue trivial
  | .write _ _ _ => isTrue trivial
  | .read _ _ _ => isTrue trivial
  | .kick _ => inferInstanceAs (Decidable (_ ≤ _))

/-- The blocks in use are the objects, each with less than `OSALMEM_MIN_BLKSZ` bytes too many, and
the header that blocks the bucket. -/
structure Owned (L : HeapLayout) (live : ℕ → Option ℕ) (us : List (ℕ × ℕ)) : Prop where
  block : ∀ p n, live p = some n → ∃ u ∈ us, p = u.1 + 2 ∧ u.1 ≠ L.bucket ∧ n + 2 ≤ u.2 ∧
    u.2 < n + 2 + minBlksz
  object : ∀ u ∈ us, u = (L.bucket, 2) ∨ ∃ n, live (u.1 + 2) = some n

/-- The heap is a row of blocks and its objects are the blocks in use. -/
def HeapOk (L : HeapLayout) (s : HeapState) : Prop :=
  ∃ bs, Rows L s.heap bs ∧ Owned L s.live (used 0 bs)

section Steps

variable {L : HeapLayout} {s : HeapState} {h' : Heap} {n p : ℕ} {bs : List Block}

/-- The bytes of the objects are the same. -/
def Kept (s : HeapState) (h' : Heap) : Prop :=
  ∀ p n, s.live p = some n → ∀ i, i < n → h'.mem (p + i) = s.heap.mem (p + i)

/-- What keeps the blocks in use keeps the objects. -/
theorem Owned.kept (ho : Owned L s.live (used 0 bs))
    (hframe : ∀ u ∈ used 0 bs, ∀ i, u.1 ≤ i → i < u.1 + u.2 → h'.mem i = s.heap.mem i) :
    Kept s h' := by
  intro p n hlive i hi
  obtain ⟨u, hu, rfl, -, hlen, -⟩ := ho.block p n hlive
  exact hframe u hu _ (by omega) (by omega)

/-- A block is that of one object. -/
theorem Owned.block_eq (ho : Owned L s.live (used 0 bs)) (hlive : s.live p = some n) :
    ∃ u ∈ used 0 bs, p = u.1 + 2 ∧ u.1 ≠ L.bucket ∧ n + 2 ≤ u.2 ∧
      ∀ v ∈ used 0 bs, v ≠ u → v.1 + v.2 ≤ u.1 ∨ u.1 + u.2 ≤ v.1 := by
  obtain ⟨u, hu, hp, hne, hlen, -⟩ := ho.block p n hlive
  refine ⟨u, hu, hp, hne, hlen, fun v hv hvu => ?_⟩
  rcases used_disjoint hv hu with rfl | happart
  · exact absurd rfl hvu
  · exact happart

/-- A block that was found lies apart from the others, so none of them begins where it does. -/
theorem found_apart {mem : Memory} {hdr m e : ℕ} {xs ys : List (ℕ × ℕ)} {bs' : List Block}
    (hw : Walk mem 0 bs e) (hold : used 0 bs = xs ++ ys) (hnew : used 0 bs' = xs ++ (hdr, m) :: ys)
    (hm : 2 ≤ m) : ∀ u ∈ xs ++ ys, u.1 ≠ hdr := by
  intro u hu
  have happart := used_apart hnew hu
  rw [← hold] at hu
  have hlen := hw.used_len hu
  dsimp only at happart
  omega

/-- One more block is one more object. -/
theorem Owned.insert {live : ℕ → Option ℕ} {hdr m : ℕ} {xs ys : List (ℕ × ℕ)}
    (ho : Owned L live (xs ++ ys)) (hblocked : (L.bucket, 2) ∈ xs ++ ys)
    (hne : ∀ u ∈ xs ++ ys, u.1 ≠ hdr) (hlow : n + 2 ≤ m) (hhigh : m < n + 2 + minBlksz) :
    Owned L (Function.update live (hdr + 2) (some n)) (xs ++ (hdr, m) :: ys) := by
  have hmem : ∀ u, u ∈ xs ++ (hdr, m) :: ys ↔ u = (hdr, m) ∨ u ∈ xs ++ ys := by
    intro u
    simp only [List.mem_append, List.mem_cons]
    tauto
  constructor
  · intro p k hlive
    by_cases hp : p = hdr + 2
    · rw [hp, Function.update_self] at hlive
      obtain rfl := Option.some.inj hlive
      exact ⟨(hdr, m), (hmem _).mpr (Or.inl rfl), hp, fun h => hne _ hblocked h.symm, hlow, hhigh⟩
    · rw [Function.update_of_ne hp] at hlive
      obtain ⟨u, hu, hrest⟩ := ho.block p k hlive
      exact ⟨u, (hmem u).mpr (Or.inr hu), hrest⟩
  · intro u hu
    rcases (hmem u).mp hu with rfl | hu
    · exact Or.inr ⟨n, Function.update_self _ _ _⟩
    · have hplace : u.1 + 2 ≠ hdr + 2 := fun h => hne u hu (by omega)
      rw [Function.update_of_ne hplace]
      exact ho.object u hu

theorem alloc_ok (hs : HeapOk L s) (hn : n + 2 < 2 ^ 16) : ∃ h' q,
    osalMemAlloc L n s.heap = some (h', q) ∧ HeapOk L { heap := h', live := granted s.live n q } ∧
      Kept s h' ∧ ∀ p, q = some p → s.live p = none := by
  obtain ⟨bs, hr, ho⟩ := hs
  obtain ⟨h', q, bs', hrun, ha⟩ := osalMemAlloc_rows hr hn
  refine ⟨h', q, hrun, ⟨bs', ha.rows, ?_⟩, ho.kept ha.frame, ?_⟩
  · cases q with
    | none =>
        rw [(ha.failed rfl).1]
        exact ho
    | some p =>
        obtain ⟨hdr, m, xs, ys, rfl, -, hlow, hhigh, hold, hnew⟩ := ha.found p rfl
        have hne := found_apart hr.walk hold hnew (by omega)
        have hblocked := hr.blocked
        rw [hold] at ho hblocked
        rw [hnew]
        exact ho.insert hblocked hne hlow hhigh
  · rintro p rfl
    obtain ⟨hdr, m, xs, ys, rfl, -, hlow, hhigh, hold, hnew⟩ := ha.found p rfl
    rw [← Option.not_isSome_iff_eq_none, Option.isSome_iff_exists]
    rintro ⟨k, hlive⟩
    obtain ⟨u, hu, hplace, -⟩ := ho.block _ k hlive
    rw [hold] at hu
    exact found_apart hr.walk hold hnew (by omega) u hu (by omega)

theorem free_ok (hs : HeapOk L s) (hlive : s.live p = some n) :
    HeapOk L { heap := osalMemFree p s.heap, live := Function.update s.live p none } ∧
      Kept { s with live := Function.update s.live p none } (osalMemFree p s.heap) := by
  obtain ⟨bs, hr, ho⟩ := hs
  obtain ⟨u, hu, rfl, hne, -, happart⟩ := ho.block_eq hlive
  obtain ⟨bs', hf⟩ := osalMemFree_rows hr hu hne
  refine ⟨⟨bs', hf.rows, ?_, ?_⟩, ?_⟩
  · intro q m hq
    dsimp only at hq
    by_cases hqu : q = u.1 + 2
    · rw [hqu, Function.update_self] at hq
      cases hq
    · rw [Function.update_of_ne hqu] at hq
      obtain ⟨v, hv, hplace, hrest⟩ := ho.block q m hq
      exact ⟨v, (hf.mem_used v).mpr ⟨hv, by omega⟩, hplace, hrest⟩
  · intro v hv
    obtain ⟨hv, hvu⟩ := (hf.mem_used v).mp hv
    dsimp only
    rw [Function.update_of_ne (by omega)]
    exact ho.object v hv
  · intro q m hq i hi
    dsimp only at hq
    by_cases hqu : q = u.1 + 2
    · rw [hqu, Function.update_self] at hq
      cases hq
    · rw [Function.update_of_ne hqu] at hq
      obtain ⟨v, hv, rfl, -, hlen, -⟩ := ho.block q m hq
      have hvu := happart v hv fun h => hqu (by rw [h])
      exact hf.frame _ (by omega)

/-- A write to a block behind its header changes no header. -/
theorem Rows.write {h : Heap} {u : ℕ × ℕ} {i : ℕ} (hr : Rows L h bs) (hu : u ∈ used 0 bs)
    (hlow : u.1 + 2 ≤ i) (hhigh : i < u.1 + u.2) (b : UInt8) :
    Rows L { h with mem := Function.update h.mem i b } bs := by
  obtain ⟨pre, post, hbs, hplace⟩ := mem_used_iff.mp hu
  rw [Nat.zero_add] at hplace
  have hw := hr.walk
  rw [hbs, walk_append, Nat.zero_add, ← hplace] at hw
  obtain ⟨hpre, hval, hlen, hlt, hpost⟩ := hw
  dsimp only at hlen hlt hpost
  have hlast := hpost.end_eq
  have hframe : ∀ j, j ≠ i → Function.update h.mem i b j = h.mem j :=
    fun j hj => Function.update_of_ne hj _ _
  refine ⟨?_, ?_, hr.blocked, hr.ff1_le, hr.ff1_split⟩
  · rw [hbs, walk_append, Nat.zero_add, ← hplace]
    refine ⟨hpre.congr fun j _ hj => hframe j (by omega), ?_, hlen, hlt,
      hpost.congr fun j hj _ => hframe j (by omega)⟩
    rw [← hval]
    exact val_congr fun j _ hj => hframe j (by omega)
  · rw [← hr.last]
    exact val_congr fun j hj _ => hframe j (by omega)

theorem write_ok {i : ℕ} (hs : HeapOk L s) (hlive : s.live p = some n) (hi : i < n) (b : UInt8) :
    HeapOk L { s with heap := { s.heap with mem := Function.update s.heap.mem (p + i) b } } ∧
      ∀ q m, s.live q = some m → q ≠ p → ∀ j, j < m → q + j ≠ p + i := by
  obtain ⟨bs, hr, ho⟩ := hs
  obtain ⟨u, hu, rfl, hne, hlen, happart⟩ := ho.block_eq hlive
  refine ⟨⟨bs, hr.write hu (by omega) (by omega) b, ho⟩, ?_⟩
  intro q m hq hqp j hj
  obtain ⟨v, hv, rfl, -, hlen', -⟩ := ho.block q m hq
  have hvu := happart v hv fun h => hqp (by rw [h])
  omega

theorem kick_ok (hs : HeapOk L s) (hkick : osalMemKick L s.heap = some (h', p))
    (hp : p ≤ L.bucket) : HeapOk L { s with heap := h' } ∧ Kept s h' := by
  obtain ⟨bs, hr, ho⟩ := hs
  obtain ⟨bs', hr', hmem, hframe⟩ := osalMemKick_rows hr hkick hp
  refine ⟨⟨bs', hr', ?_, ?_⟩, ho.kept hframe⟩
  · intro q m hq
    obtain ⟨u, hu, hrest⟩ := ho.block q m hq
    exact ⟨u, (hmem u).mpr hu, hrest⟩
  · intro u hu
    exact ho.object u ((hmem u).mp hu)

end Steps

/-! ## Runs -/

/-- What a call asks of the store of objects; a new object holds what the memory does. -/
def asked (L : HeapLayout) (s : HeapState) : HeapOp → List (Op ℕ UInt8)
  | .alloc _ none => []
  | .alloc n (some p) =>
      ((osalMemAlloc L n s.heap).map fun r => Op.new p ⟨n, fun i => r.1.mem (p + i)⟩).toList
  | .free p => [.drop p]
  | .write p i b => [.put p i b]
  | .read p i b => [.get p i b]
  | .kick _ => []

/-- The objects of the store are the allocated blocks, and their cells the bytes. -/
structure Holds (s : HeapState) (t : ℕ → Option (Object UInt8)) : Prop where
  size : ∀ p, (t p).map Object.size = s.live p
  cell : ∀ p o, t p = some o → ∀ i, i < o.size → s.heap.mem (p + i) = o.cell i

section Runs

variable {L : HeapLayout} {g : Memory} {s s' : HeapState} {t : ℕ → Option (Object UInt8)} {p n : ℕ}

theorem Holds.exists_object (h : Holds s t) (hlive : s.live p = some n) :
    ∃ o, t p = some o ∧ o.size = n := by
  have hsize := h.size p
  rw [hlive] at hsize
  exact Option.map_eq_some_iff.mp hsize

theorem Holds.live (h : Holds s t) {o : Object UInt8} (ho : t p = some o) :
    s.live p = some o.size := by
  rw [← h.size p, ho, Option.map_some]

theorem Holds.kept {h' : Heap} (h : Holds s t) (hkept : Kept s h') :
    Holds { s with heap := h' } t := by
  refine ⟨h.size, fun p o ho i hi => ?_⟩
  rw [hkept p o.size (h.live ho) i hi]
  exact h.cell p o ho i hi

theorem Holds.insert {h' : Heap} (h : Holds s t) (hkept : Kept s h') (p n : ℕ) :
    Holds { heap := h', live := Function.update s.live p (some n) }
      (Function.update t p (some ⟨n, fun i => h'.mem (p + i)⟩)) := by
  constructor
  · intro q
    dsimp only
    by_cases hqp : q = p
    · rw [hqp, Function.update_self, Function.update_self, Option.map_some]
    · rw [Function.update_of_ne hqp, Function.update_of_ne hqp]
      exact h.size q
  · intro q o ho i hi
    by_cases hqp : q = p
    · rw [hqp, Function.update_self] at ho
      obtain rfl := Option.some.inj ho
      rw [hqp]
    · rw [Function.update_of_ne hqp] at ho
      dsimp only
      rw [hkept q o.size (h.live ho) i hi]
      exact h.cell q o ho i hi

theorem Holds.erase {h' : Heap} (h : Holds s t)
    (hkept : Kept { s with live := Function.update s.live p none } h') :
    Holds { heap := h', live := Function.update s.live p none } (Function.update t p none) := by
  constructor
  · intro q
    dsimp only
    by_cases hqp : q = p
    · rw [hqp, Function.update_self, Function.update_self, Option.map_none]
    · rw [Function.update_of_ne hqp, Function.update_of_ne hqp]
      exact h.size q
  · intro q o ho i hi
    by_cases hqp : q = p
    · rw [hqp, Function.update_self] at ho
      cases ho
    · rw [Function.update_of_ne hqp] at ho
      have hq : Function.update s.live p none q = some o.size := by
        rw [Function.update_of_ne hqp]
        exact h.live ho
      dsimp only
      rw [hkept q o.size hq i hi]
      exact h.cell q o ho i hi

theorem Holds.put {o : Object UInt8} {i : ℕ} (h : Holds s t) (ho : t p = some o)
    (hother : ∀ q m, s.live q = some m → q ≠ p → ∀ j, j < m → q + j ≠ p + i) (b : UInt8) :
    Holds { s with heap := { s.heap with mem := Function.update s.heap.mem (p + i) b } }
      (Function.update t p (some { o with cell := Function.update o.cell i b })) := by
  constructor
  · intro q
    by_cases hqp : q = p
    · rw [hqp, Function.update_self, Option.map_some, h.live ho]
    · rw [Function.update_of_ne hqp]
      exact h.size q
  · intro q o' ho' j hj
    by_cases hqp : q = p
    · rw [hqp, Function.update_self] at ho'
      obtain rfl := Option.some.inj ho'
      dsimp only at hj ⊢
      rw [hqp]
      by_cases hji : j = i
      · rw [hji, Function.update_self, Function.update_self]
      · rw [Function.update_of_ne hji, Function.update_of_ne (by omega)]
        exact h.cell p o ho j hj
    · rw [Function.update_of_ne hqp] at ho'
      dsimp only
      rw [Function.update_of_ne (hother q o'.size (h.live ho') hqp j hj)]
      exact h.cell q o' ho' j hj

/-- **Every call keeps the heap in order and does to the objects what is asked of it.** -/
theorem heap_step {a : HeapOp} (hs : HeapOk L s) (hR : Holds s t) (hfits : Fits L s a)
    (hstep : (heapMachine L g).step s a = some s') :
    HeapOk L s' ∧ ∃ t', (store ℕ UInt8).exec t (asked L s a) = some t' ∧ Holds s' t' := by
  cases a with
  | alloc n q =>
      obtain ⟨h', q', hrun, hok, hkept, hfresh⟩ := alloc_ok hs hfits
      simp only [heapMachine, hrun, Option.bind_some, Machine.when_eq_some] at hstep
      obtain ⟨rfl, rfl⟩ := hstep
      refine ⟨hok, ?_⟩
      cases q' with
      | none => exact ⟨t, rfl, hR.kept hkept⟩
      | some p =>
          have hnone : t p = none := by
            have hsize := hR.size p
            rwa [hfresh p rfl, Option.map_eq_none_iff] at hsize
          refine ⟨_, ?_, hR.insert hkept p n⟩
          simp [asked, hrun, store, Machine.exec, Machine.when, hnone]
  | free p =>
      simp only [heapMachine, Machine.when_eq_some] at hstep
      obtain ⟨hne, rfl⟩ := hstep
      obtain ⟨n, hlive⟩ := Option.ne_none_iff_exists'.mp hne
      obtain ⟨hok, hkept⟩ := free_ok hs hlive
      obtain ⟨o, ho, -⟩ := hR.exists_object hlive
      refine ⟨hok, _, ?_, hR.erase hkept⟩
      simp [asked, store, Machine.exec, Machine.when, ho]
  | write p i b =>
      simp only [heapMachine, Option.bind_eq_some_iff, Machine.when_eq_some] at hstep
      obtain ⟨n, hlive, hi, rfl⟩ := hstep
      obtain ⟨hok, hother⟩ := write_ok hs hlive hi b
      obtain ⟨o, ho, rfl⟩ := hR.exists_object hlive
      refine ⟨hok, _, ?_, hR.put ho hother b⟩
      simp [asked, store, Machine.exec, Machine.when, ho, hi]
  | read p i b =>
      simp only [heapMachine, Option.bind_eq_some_iff, Machine.when_eq_some] at hstep
      obtain ⟨n, hlive, ⟨hi, hb⟩, rfl⟩ := hstep
      obtain ⟨o, ho, rfl⟩ := hR.exists_object hlive
      have hcell : o.cell i = b := by
        rw [← hR.cell p o ho i hi, hb]
      refine ⟨hs, t, ?_, hR⟩
      simp [asked, store, Machine.exec, Machine.when, ho, hi, hcell]
  | kick p =>
      simp only [heapMachine, Option.bind_eq_some_iff, Machine.when_eq_some] at hstep
      obtain ⟨⟨h', q⟩, hkick, rfl, rfl⟩ := hstep
      obtain ⟨hok, hkept⟩ := kick_ok hs hkick hfits
      exact ⟨hok, t, rfl, hR.kept hkept⟩

theorem init_ok (L : HeapLayout) (g : Memory) : HeapOk L (heapMachine L g).init := by
  refine ⟨_, osalMemInit_rows L g, fun p n hlive => ?_, fun u hu => ?_⟩
  · cases hlive
  · simp only [used, Bool.false_eq_true, if_false, if_true, Nat.zero_add, List.mem_singleton] at hu
    exact Or.inl hu

/-- What is allocated, in a heap in order: it lies in the heap behind a header of its own, and apart
from the rest. -/
theorem HeapOk.apart (hs : HeapOk L s) (hlive : s.live p = some n) : 2 ≤ p ∧ p + n ≤ L.lastblk ∧
    ∀ q m, s.live q = some m → q ≠ p → q + m + 2 ≤ p ∨ p + n + 2 ≤ q := by
  obtain ⟨bs, hr, ho⟩ := hs
  obtain ⟨u, hu, rfl, -, hlen, happart⟩ := ho.block_eq hlive
  have hbounds := used_bounds hu
  have hend := hr.walk.end_eq
  refine ⟨by omega, by omega, fun q m hq hqp => ?_⟩
  obtain ⟨v, hv, rfl, -, hlen', -⟩ := ho.block q m hq
  have hvu := happart v hv fun h => hqp (by rw [h])
  omega

/-- The heap is in order after every run, and the objects of the store are the allocated blocks. -/
theorem heap_run {ops : List HeapOp}
    (hfits : (heapMachine L g).Along (Fits L) (heapMachine L g).init ops)
    (hex : (heapMachine L g).exec (heapMachine L g).init ops = some s) :
    HeapOk L s ∧ ∃ t, (store ℕ UInt8).exec (store ℕ UInt8).init
      ((heapMachine L g).trace (asked L) (heapMachine L g).init ops) = some t ∧ Holds s t := by
  have hstep : ∀ ⦃s a s' t⦄, HeapOk L s ∧ Holds s t → Fits L s a →
      (heapMachine L g).step s a = some s' →
      ∃ t', (store ℕ UInt8).exec t (asked L s a) = some t' ∧ HeapOk L s' ∧ Holds s' t' := by
    intro s a s' t hR hfits hstep
    obtain ⟨hok, t', ht', hholds⟩ := heap_step hR.1 hR.2 hfits hstep
    exact ⟨t', ht', hok, hholds⟩
  have hinit : Holds (heapMachine L g).init (store ℕ UInt8).init :=
    ⟨fun _ => rfl, fun _ _ ho => nomatch ho⟩
  obtain ⟨t, ht, hok, hholds⟩ := Machine.exec_simulates hstep ⟨init_ok L g, hinit⟩ hfits hex
  exact ⟨hok, t, ht, hholds⟩

/-! ## What clients may rely on -/

/-- A run with everything in it: an object in the bucket and one in the wilderness, and a block that
is given back and taken again. -/
def someCalls : List HeapOp :=
  [.alloc 10 (some 2), .alloc 20 (some 14), .write 2 3 7, .kick 36, .alloc 100 (some 588),
    .write 588 0 9, .free 14, .alloc 12 (some 14), .read 2 3 7, .read 588 0 9, .free 588]

/-- **Objects keep their bytes.**  Whatever is allocated, freed and written in between, a read
returns what was last written there, or what the object held when it was allocated. -/
theorem heap_refines_store (ops : List HeapOp)
    (hfits : (heapMachine L g).Along (Fits L) (heapMachine L g).init ops)
    (hex : (heapMachine L g).exec (heapMachine L g).init ops = some s) :
    ∃ t, (store ℕ UInt8).exec (store ℕ UInt8).init
        ((heapMachine L g).trace (asked L) (heapMachine L g).init ops) = some t ∧ Holds s t :=
  (heap_run hfits hex).2

theorem heap_refines_store_somecalls : ∃ s t,
    (store ℕ UInt8).exec (store ℕ UInt8).init ((heapMachine endDeviceHeap fun _ => 0).trace
      (asked endDeviceHeap) (heapMachine endDeviceHeap fun _ => 0).init someCalls) = some t ∧
      Holds s t := by
  obtain ⟨s, hs, hp⟩ := Machine.exists_exec (heapMachine endDeviceHeap fun _ => 0)
    (heapMachine endDeviceHeap fun _ => 0).init someCalls (fun _ => True) (by decide)
  obtain ⟨t, ht, hholds⟩ := heap_refines_store someCalls (by decide) hs
  exact ⟨s, t, ht, hholds⟩

/-- **Objects lie apart.**  In every state that a run reaches the next call returns, and what is
allocated lies in the heap, with a header of its own and apart from the rest. -/
theorem objects_apart (ops : List HeapOp)
    (hfits : (heapMachine L g).Along (Fits L) (heapMachine L g).init ops)
    (hex : (heapMachine L g).exec (heapMachine L g).init ops = some s) :
    (∀ n, n + 2 < 2 ^ 16 → osalMemAlloc L n s.heap ≠ none) ∧
      ∀ p n, s.live p = some n → 2 ≤ p ∧ p + n ≤ L.lastblk ∧
        ∀ q m, s.live q = some m → q ≠ p → q + m + 2 ≤ p ∨ p + n + 2 ≤ q := by
  have hok := (heap_run hfits hex).1
  refine ⟨fun n hn hnone => ?_, fun p n hlive => hok.apart hlive⟩
  obtain ⟨h', q, hrun, -⟩ := alloc_ok hok hn
  rw [hrun] at hnone
  cases hnone

theorem objects_apart_somecalls : ∃ s : HeapState, s.live 14 = some 12 ∧
    ∀ q m, s.live q = some m → q ≠ 14 → q + m + 2 ≤ 14 ∨ 14 + 12 + 2 ≤ q := by
  obtain ⟨s, hs, hp⟩ := Machine.exists_exec (heapMachine endDeviceHeap fun _ => 0)
    (heapMachine endDeviceHeap fun _ => 0).init someCalls (fun s => s.live 14 = some 12) (by decide)
  exact ⟨s, hp, ((objects_apart someCalls (by decide) hs).2 14 12 hp).2.2⟩

/-- **The wilderness recovers.**  Once nothing lives there, a request that is too large for the
bucket gets any size up to that of the wilderness, in however many blocks it was before. -/
theorem wilderness_recovers (ops : List HeapOp)
    (hfits : (heapMachine L g).Along (Fits L) (heapMachine L g).init ops)
    (hex : (heapMachine L g).exec (heapMachine L g).init ops = some s)
    (hkicked : s.heap.kicked = true)
    (hempty : ∀ p, s.live p ≠ none → p < L.bigblk) (hsmall : smallBlksz < n + 2)
    (hroom : L.bigblk + (n + 2) ≤ L.lastblk) :
    ∃ h' p, osalMemAlloc L n s.heap = some (h', some p) ∧ L.bigblk < p := by
  obtain ⟨bs, hr, ho⟩ := (heap_run hfits hex).1
  have hlast : L.lastblk < 2 ^ 15 := lt_of_le_of_lt (Nat.sub_le _ _) L.maxMemHeap_lt
  obtain ⟨h', p, bs', hrun, ha⟩ := osalMemAlloc_rows (n := n) hr (by omega)
  have hstart : s.heap.start L (n + 2) = L.bigblk := by
    rw [Heap.start, if_neg]
    simp only [hkicked, Bool.true_eq_false, false_or]
    omega
  cases p with
  | none =>
      obtain ⟨u, hu, hmeets⟩ := (ha.failed rfl).2 L.bigblk (by omega) hroom
      exfalso
      rcases ho.object u hu with rfl | ⟨m, hlive⟩
      · rw [HeapLayout.bigblk] at hmeets
        omega
      · have hplace := hempty (u.1 + 2) (by rw [hlive]; simp)
        have happart := used_disjoint hu hr.blocked
        rw [HeapLayout.bigblk] at hplace hmeets
        rcases happart with rfl | happart
        · omega
        · omega
  | some q =>
      obtain ⟨hdr, m, xs, ys, rfl, hfrom, -⟩ := ha.found q rfl
      exact ⟨h', hdr + 2, hrun, by omega⟩

/-- A heap in which a run is over soon. -/
def tinyHeap : HeapLayout where
  maxMemHeap := 64
  bucket := 24
  maxMemHeap_even := rfl
  bucket_even := rfl
  bucket_pos := by decide
  bucket_lt := by decide
  maxMemHeap_lt := by decide

theorem wilderness_recovers_tinyheap : ∃ (s : HeapState) (h' : Heap) (p : ℕ),
    osalMemAlloc tinyHeap 34 s.heap = some (h', some p) ∧ tinyHeap.bigblk < p := by
  obtain ⟨s, hs, hkicked, hlow⟩ := Machine.exists_exec (heapMachine tinyHeap fun _ => 0)
    (heapMachine tinyHeap fun _ => 0).init
    [.alloc 4 (some 2), .kick 8, .alloc 15 (some 28), .alloc 15 (some 45), .free 28, .free 45]
    (fun s => s.heap.kicked = true ∧ ∀ p ∈ List.range 64, 26 ≤ p → s.live p = none) (by decide)
  have hempty : ∀ p, s.live p ≠ none → p < tinyHeap.bigblk := by
    intro p hne
    obtain ⟨n, hlive⟩ := Option.ne_none_iff_exists'.mp hne
    have hend := ((heap_run (by decide) hs).1.apart hlive).2.1
    by_contra hge
    simp only [HeapLayout.lastblk, HeapLayout.bigblk, tinyHeap] at hend hge
    exact hne (hlow p (List.mem_range.mpr (by omega)) (by omega))
  obtain ⟨h', p, hrun, hp⟩ := wilderness_recovers _ (by decide) hs hkicked hempty (n := 34)
    (by decide) (by decide)
  exact ⟨s, h', p, hrun, hp⟩

end Runs

end CourseDesign.Osal
