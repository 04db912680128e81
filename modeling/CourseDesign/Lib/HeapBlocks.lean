import CourseDesign.Lib.Procedure
import Mathlib.Logic.Function.Basic

/-!
# Blocks of a heap and what a procedure owns

`malloc`, `free` and accesses through pointers, for procedures that work next to an environment
`σ`.  A block starts uninitialized; to read such a cell, a cell outside the block or a block that
was freed is a fault, and so is an access through the null pointer and a `free` of what is not
allocated.  Any call of `malloc` may find no memory; for a program that does not test its results
this is the excuse `Short`.

`Owns f p l` says that on top of the blocks `f` exactly the block `p` is allocated, with the cells
`l`.  The specifications of the operations hand it on, and `ends_free` gives `f` back, so that a
procedure that frees what it allocates is seen to change nothing.
-/

namespace HeapBlocks

open Procedure

/-- A heap whose next block was never allocated before. -/
structure Heap (β : Type) where
  block : ℕ → Option (List (Option β))
  next : ℕ
  fresh : ∀ p, next ≤ p → block p = none
  /-- The calls of `malloc` so far. -/
  calls : ℕ

/-- A heap next to an environment. -/
structure World (σ β : Type) where
  env : σ
  heap : Heap β

variable {σ β : Type}

def Heap.empty : Heap β := ⟨fun _ => none, 0, fun _ _ => rfl, 0⟩

/-- `malloc(n)`, where `memory` tells which calls find memory.  Zero bytes are not allocated. -/
def malloc (memory : ℕ → Bool) (n : ℕ) : Proc (World σ β) (Option ℕ) := fun w =>
  if n ≠ 0 ∧ memory w.heap.calls = true then some (some w.heap.next,
    { w with heap :=
      { block := Function.update w.heap.block w.heap.next (some (List.replicate n none))
        next := w.heap.next + 1
        fresh := fun p hp => by
          rw [Function.update_of_ne (by omega)]
          exact w.heap.fresh p (by omega)
        calls := w.heap.calls + 1 } })
  else some (none, { w with heap := { w.heap with calls := w.heap.calls + 1 } })

/-- The block `p` becomes `l`, if it is allocated. -/
def change (p : ℕ) (l : Option (List (Option β))) : Proc (World σ β) PUnit := fun w =>
  if hp : (w.heap.block p).isSome then some (⟨⟩,
    { w with heap :=
      { block := Function.update w.heap.block p l
        next := w.heap.next
        fresh := fun q hq => by
          rw [Function.update_of_ne]
          · exact w.heap.fresh q hq
          · rintro rfl
            rw [w.heap.fresh q hq] at hp
            cases hp
        calls := w.heap.calls } })
  else none

/-- The cells of an allocated block. -/
def cells (p : ℕ) : Proc (World σ β) (List (Option β)) := fun w =>
  (w.heap.block p).map fun l => (l, w)

/-- `free(p)`; `none` is the null pointer. -/
def free : Option ℕ → Proc (World σ β) PUnit
  | none => pure ⟨⟩
  | some p => change p none

/-- `p[i] = b`. -/
def store : Option ℕ → ℕ → β → Proc (World σ β) PUnit
  | none, _, _ => fault
  | some p, i, b => do
      let l ← cells p
      if i < l.length then change p (some (l.set i (some b))) else fault

/-- `p[i]`. -/
def load : Option ℕ → ℕ → Proc (World σ β) β
  | none, _ => fault
  | some p, i => do
      let l ← cells p
      match l[i]? with
      | some (some b) => pure b
      | _ => fault

/-- `memcpy(p + i, bs, …)`. -/
def storeList (p : Option ℕ) : ℕ → List β → Proc (World σ β) PUnit
  | _, [] => pure ⟨⟩
  | i, b :: bs => do
      store p i b
      storeList p (i + 1) bs

/-- The `n` cells from `p + i`. -/
def loadList (p : Option ℕ) : ℕ → ℕ → Proc (World σ β) (List β)
  | _, 0 => pure []
  | i, n + 1 => do
      let b ← load p i
      let bs ← loadList p (i + 1) n
      pure (b :: bs)

/-- Exactly the block `p` is allocated on top of the blocks `f`. -/
structure Owns (f : ℕ → Option (List (Option β))) (p : ℕ) (l : List (Option β))
    (w : World σ β) : Prop where
  fresh : f p = none
  block : w.heap.block = Function.update f p (some l)

/-- A call of `malloc` that is still to come will find no memory. -/
def Short (memory : ℕ → Bool) (w : World σ β) : Prop :=
  ∃ k, w.heap.calls ≤ k ∧ memory k = false

/-! ## The specifications of the operations -/

section Operations

variable {α : Type} {f : ℕ → Option (List (Option β))} {p i n : ℕ} {l : List (Option β)}
  {w w' : World σ β} {memory : ℕ → Bool}

theorem Owns.at (h : Owns f p l w) : w.heap.block p = some l := by
  rw [h.block, Function.update_self]

/-- What leaves the blocks as they are leaves them owned. -/
theorem Owns.congr (h : Owns f p l w) (hblock : w'.heap.block = w.heap.block) : Owns f p l w' :=
  ⟨h.fresh, hblock.trans h.block⟩

theorem Short.of_le (h : Short memory w') (hcalls : w.heap.calls ≤ w'.heap.calls) :
    Short memory w := by
  obtain ⟨k, hk, hmemory⟩ := h
  exact ⟨k, Nat.le_trans hcalls hk, hmemory⟩

theorem not_short (h : ∀ k, w.heap.calls ≤ k → memory k = true) : ¬ Short memory w := by
  rintro ⟨k, hk, hfalse⟩
  rw [h k hk] at hfalse
  cases hfalse

/-- **A `malloc` whose result is used**: the program gets a block, or it faults for want of
memory. -/
theorem ends_malloc_then {g : Option ℕ → Proc (World σ β) α} {Q : α → World σ β → Prop}
    (hn : n ≠ 0) (hnull : g none = fault)
    (hg : ∀ p w', Owns w.heap.block p (List.replicate n none) w' → w'.env = w.env →
      Ends (Short memory) (g (some p)) w' Q) : Ends (Short memory) (malloc memory n >>= g) w Q := by
  by_cases hmemory : memory w.heap.calls = true
  · have hmalloc : Ends (Short memory) (malloc memory n) w fun q w' => ∃ p, q = some p ∧
        Owns w.heap.block p (List.replicate n none) w' ∧ w'.env = w.env :=
      ends_of_eq (if_pos ⟨hn, hmemory⟩) (fun h => h.of_le (Nat.le_add_right _ 1))
        ⟨_, rfl, ⟨w.heap.fresh _ (Nat.le_refl _), rfl⟩, rfl⟩
    refine hmalloc.then ?_
    rintro _ w' ⟨p, rfl, howns, henv⟩
    exact hg p w' howns henv
  · refine Or.inr ⟨?_, w.heap.calls, Nat.le_refl _, Bool.not_eq_true _ ▸ hmemory⟩
    show (malloc memory n w).bind _ = none
    rw [malloc, if_neg fun h => hmemory h.2, Option.bind_some]
    show g none _ = none
    rw [hnull]
    rfl

theorem ends_malloc_zero (w : World σ β) : Ends (Short memory) (malloc memory 0) w fun q w' =>
    q = none ∧ w'.heap.block = w.heap.block ∧ w'.env = w.env :=
  ends_of_eq (if_neg fun h => h.1 rfl) (fun h => h.of_le (Nat.le_add_right _ 1)) ⟨rfl, rfl, rfl⟩

theorem ends_cells (h : Owns f p l w) :
    Ends (Short memory) (cells p) w fun l' w' => l' = l ∧ w' = w := by
  refine ends_of_eq (a := l) ?_ id ⟨rfl, rfl⟩
  rw [cells, h.at]
  rfl

theorem ends_change (h : Owns f p l w) (l' : Option (List (Option β))) :
    Ends (Short memory) (change p l') w fun _ w' =>
      w'.heap.block = Function.update f p l' ∧ w'.env = w.env := by
  refine ends_of_eq (dif_pos (by rw [h.at]; rfl)) (fun h => h.of_le (Nat.le_refl _)) ⟨?_, rfl⟩
  show Function.update w.heap.block p l' = _
  rw [h.block, Function.update_idem]

/-- **What is freed is as before.** -/
theorem ends_free (h : Owns f p l w) : Ends (Short memory) (free (some p)) w fun _ w' =>
    w'.heap.block = f ∧ w'.env = w.env := by
  refine (ends_change h none).mono fun _ w' hw' => ⟨?_, hw'.2⟩
  rw [hw'.1, ← h.fresh, Function.update_eq_self]

theorem ends_free_null (w : World σ β) : Ends (Short memory) (free none) w fun _ w' => w' = w :=
  ends_pure rfl

theorem ends_store (h : Owns f p l w) (hi : i < l.length) (b : β) :
    Ends (Short memory) (store (some p) i b) w fun _ w' =>
      Owns f p (l.set i (some b)) w' ∧ w'.env = w.env := by
  refine (ends_cells h).then ?_
  rintro _ _ ⟨rfl, rfl⟩
  rw [if_pos hi]
  exact (ends_change h _).mono fun _ w' hw' => ⟨⟨h.fresh, hw'.1⟩, hw'.2⟩

theorem ends_load (h : Owns f p l w) {b : β} (hi : l[i]? = some (some b)) :
    Ends (Short memory) (load (some p) i) w fun b' w' => b' = b ∧ w' = w := by
  refine (ends_cells h).then ?_
  rintro _ _ ⟨rfl, rfl⟩
  rw [hi]
  exact ends_pure ⟨rfl, rfl⟩

/-- **A copy** into the uninitialized rest of a block. -/
theorem ends_storeList (bs : List β) {k : ℕ} (hl : l.length = i)
    (h : Owns f p (l ++ List.replicate (bs.length + k) none) w) :
    Ends (Short memory) (storeList (some p) i bs) w fun _ w' =>
      Owns f p (l ++ bs.map some ++ List.replicate k none) w' ∧ w'.env = w.env := by
  induction bs generalizing l i w with
  | nil =>
      refine ends_pure ⟨?_, rfl⟩
      simpa using h
  | cons b bs ih =>
      have hlength : i < (l ++ List.replicate ((b :: bs).length + k) (none : Option β)).length := by
        simp only [List.length_append, List.length_replicate, List.length_cons]
        omega
      refine (ends_store h hlength b).then fun _ w' hw' => ?_
      have hcells : (l ++ List.replicate ((b :: bs).length + k) none).set i (some b) =
          l ++ [some b] ++ List.replicate (bs.length + k) none := by
        rw [List.length_cons, Nat.add_right_comm, List.replicate_succ, ← hl]
        simp
      rw [hcells] at hw'
      refine (ih (l := l ++ [some b]) (by simp [hl]) hw'.1).mono ?_
      rintro _ w'' ⟨howns, henv⟩
      refine ⟨?_, henv.trans hw'.2⟩
      simpa using howns

/-- **The cells of a block** in a row. -/
theorem ends_loadList (bs : List β) (h : Owns f p l w)
    (hbs : ∀ k b, bs[k]? = some b → l[i + k]? = some (some b)) :
    Ends (Short memory) (loadList (some p) i bs.length) w fun bs' w' => bs' = bs ∧ w' = w := by
  induction bs generalizing i with
  | nil => exact ends_pure ⟨rfl, rfl⟩
  | cons b bs ih =>
      refine (ends_load h (hbs 0 b rfl)).then ?_
      rintro _ _ ⟨rfl, rfl⟩
      refine (ih fun k c hk => ?_).then ?_
      · rw [Nat.add_assoc, Nat.add_comm 1 k]
        exact hbs (k + 1) c hk
      · rintro _ _ ⟨rfl, rfl⟩
        exact ends_pure ⟨rfl, rfl⟩

/-- A block that holds exactly `bs`. -/
theorem ends_loadList_all (bs : List β) (h : Owns f p (bs.map some) w) :
    Ends (Short memory) (loadList (some p) 0 bs.length) w fun bs' w' => bs' = bs ∧ w' = w := by
  refine ends_loadList bs h fun k b hk => ?_
  rw [Nat.zero_add, List.getElem?_map, hk]
  rfl

end Operations

end HeapBlocks
