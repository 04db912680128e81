import Mathlib.Data.List.Basic
import Mathlib.Data.List.Nodup
import Mathlib.Data.List.Perm.Subperm
import Mathlib.Logic.Function.Basic
import Mathlib.Tactic.Common

/-!
# Singly linked lists

A list in the `next` field of its nodes, which are places other than the null pointer 0.

* `Seg`, `IsList` — the nodes in their order, between two places and from the head to the end.
* `lastNode_eq`, `IsList.append`, `IsList.unlink` — finding the last node, hanging one behind it,
  and taking one out.
* `findNode_eq` — the first node with a property.
-/

namespace LinkedList

/-- `next` leads from `a` over the nodes `q` to `b`. -/
def Seg (next : ℕ → ℕ) : ℕ → List ℕ → ℕ → Prop
  | a, [], b => a = b
  | a, p :: q, b => a = p ∧ Seg next (next p) q b

/-- The list that begins at `a`, each node in it once. -/
structure IsList (next : ℕ → ℕ) (a : ℕ) (q : List ℕ) : Prop where
  seg : Seg next a q 0
  nodup : q.Nodup
  zero_notMem : 0 ∉ q

section Segments

variable {next next' : ℕ → ℕ} {a b p : ℕ} {q r : List ℕ}

theorem seg_cons : Seg next a (p :: q) b ↔ a = p ∧ Seg next (next p) q b := Iff.rfl

theorem seg_append : Seg next a (q ++ r) b ↔ ∃ c, Seg next a q c ∧ Seg next c r b := by
  induction q generalizing a with
  | nil => simp [Seg]
  | cons x q ih =>
      rw [List.cons_append, seg_cons, ih]
      simp only [seg_cons, and_assoc, exists_and_left]

/-- A segment looks at its own nodes only. -/
theorem Seg.congr (h : Seg next a q b) (hnext : ∀ x ∈ q, next' x = next x) : Seg next' a q b := by
  induction q generalizing a with
  | nil => exact h
  | cons x q ih =>
      obtain ⟨rfl, hrest⟩ := h
      refine ⟨rfl, ?_⟩
      rw [hnext a List.mem_cons_self]
      exact ih hrest fun y hy => hnext y (List.mem_cons_of_mem _ hy)

/-- The last node of a segment leads to where it ends. -/
theorem seg_concat : Seg next a (q ++ [p]) b ↔ Seg next a q p ∧ next p = b := by
  rw [seg_append]
  constructor
  · rintro ⟨c, hq, rfl, hb⟩
    exact ⟨hq, hb⟩
  · rintro ⟨hq, hb⟩
    exact ⟨p, hq, rfl, hb⟩

theorem IsList.congr (h : IsList next a q) (hnext : ∀ x ∈ q, next' x = next x) : IsList next' a q :=
  ⟨h.seg.congr hnext, h.nodup, h.zero_notMem⟩

theorem isList_nil : IsList next a [] ↔ a = 0 := by
  constructor
  · intro h
    exact h.seg
  · rintro rfl
    exact ⟨rfl, List.nodup_nil, List.not_mem_nil⟩

/-- A list that has a node begins with it. -/
theorem IsList.head_eq (h : IsList next a (p :: q)) : a = p := h.seg.1

theorem IsList.ne_zero (h : IsList next a q) (hp : p ∈ q) : p ≠ 0 := by
  rintro rfl
  exact h.zero_notMem hp

/-- Nodes below a bound are at most as many. -/
theorem length_le_of_lt {n : ℕ} (hnodup : q.Nodup) (h : ∀ x ∈ q, x < n) : q.length ≤ n := by
  have hsub : q ⊆ List.range n := fun x hx => List.mem_range.mpr (h x hx)
  have hle := (List.subperm_of_subset hnodup hsub).length_le
  rwa [List.length_range] at hle

end Segments

/-! ## The last node -/

/-- `while (NEXT(list) != NULL) list = NEXT(list);`, with a bound on its rounds. -/
def lastNode (next : ℕ → ℕ) : ℕ → ℕ → Option ℕ
  | 0, _ => none
  | fuel + 1, a => if next a = 0 then some a else lastNode next fuel (next a)

/-- `append` puts the node `p` at the end of the list from `a`, and returns the new links and the
new head. -/
def append (fuel : ℕ) (next : ℕ → ℕ) (a p : ℕ) : Option ((ℕ → ℕ) × ℕ) :=
  let next := Function.update next p 0
  if a = 0 then some (next, p)
  else (lastNode next fuel a).map fun last => (Function.update next last p, a)

/-- `unlink` takes the node `p` out of the list from `a`; `prev` is the node in front of it. -/
def unlink (next : ℕ → ℕ) (a p prev : ℕ) : (ℕ → ℕ) × ℕ :=
  if p = a then (next, next p) else (Function.update next prev (next p), a)

section Ends

variable {next : ℕ → ℕ} {a p : ℕ} {q pre post : List ℕ} {fuel : ℕ}

theorem lastNode_eq (h : IsList next a (q ++ [p])) (hfuel : q.length < fuel) :
    lastNode next fuel a = some p := by
  induction q generalizing a fuel with
  | nil =>
      obtain ⟨fuel, rfl⟩ := Nat.exists_eq_add_of_lt hfuel
      obtain ⟨⟨rfl, hend⟩, -, -⟩ := h
      have hlast : next a = 0 := hend
      rw [List.length_nil, Nat.zero_add, lastNode, if_pos hlast]
  | cons x q ih =>
      obtain ⟨fuel, rfl⟩ := Nat.exists_eq_add_of_lt hfuel
      obtain ⟨⟨rfl, hrest⟩, hnodup, hzero⟩ := h
      have htail : IsList next (next a) (q ++ [p]) :=
        ⟨hrest, (List.nodup_cons.mp hnodup).2, fun h => hzero (List.mem_cons_of_mem _ h)⟩
      have hne : next a ≠ 0 := by
        cases q with
        | nil => exact fun h => htail.zero_notMem (by rw [← h, htail.head_eq]; simp)
        | cons y q => exact fun h => htail.zero_notMem (by rw [← h, IsList.head_eq htail]; simp)
      rw [List.length_cons, lastNode, if_neg hne]
      exact ih htail (by omega)

/-- **A node is hung behind the last one.** -/
theorem IsList.append (h : IsList next a q) (hp : p ∉ q) (hzero : p ≠ 0) (hfuel : q.length ≤ fuel) :
    ∃ next' a', LinkedList.append fuel next a p = some (next', a') ∧ IsList next' a' (q ++ [p]) ∧
      ∀ x, x ∉ q → x ≠ p → next' x = next x := by
  have hnodup : (q ++ [p]).Nodup := by
    rw [List.nodup_append]
    exact ⟨h.nodup, List.nodup_singleton p, fun x hx y hy => by
      rw [List.mem_singleton.mp hy]
      exact fun hxp => hp (hxp ▸ hx)⟩
  have hnonzero : 0 ∉ q ++ [p] := by
    simp [h.zero_notMem, hzero.symm]
  have hsame : ∀ x, x ≠ p → Function.update next p 0 x = next x :=
    fun x hx => Function.update_of_ne hx _ _
  rcases List.eq_nil_or_concat q with rfl | ⟨front, last, rfl⟩
  · obtain rfl := isList_nil.mp h
    refine ⟨Function.update next p 0, p, ?_, ⟨?_, hnodup, hnonzero⟩, fun x _ => hsame x⟩
    · rw [LinkedList.append, if_pos rfl]
    · exact ⟨rfl, Function.update_self _ _ _⟩
  · rw [List.concat_eq_append] at *
    have hne : a ≠ 0 := by
      intro ha
      cases front with
      | nil => exact h.zero_notMem (by rw [← ha, h.head_eq]; simp)
      | cons x front => exact h.zero_notMem (by rw [← ha, IsList.head_eq h]; simp)
    have hlist : IsList (Function.update next p 0) a (front ++ [last]) :=
      h.congr fun x hx => hsame x fun hxp => hp (hxp ▸ hx)
    have hlen : front.length < fuel := by
      rw [List.length_append, List.length_singleton] at hfuel
      omega
    have hlast := lastNode_eq hlist hlen
    have hpl : p ≠ last := fun hpl => hp (by simp [hpl])
    refine ⟨Function.update (Function.update next p 0) last p, a, ?_, ⟨?_, hnodup, hnonzero⟩, ?_⟩
    · rw [LinkedList.append, if_neg hne, hlast, Option.map_some]
    · have hfront : Seg (Function.update (Function.update next p 0) last p) a front last := by
        refine (seg_concat.mp hlist.seg).1.congr fun x hx => Function.update_of_ne ?_ _ _
        rintro rfl
        exact (List.nodup_append.mp h.nodup).2.2 x hx x (by simp) rfl
      rw [seg_concat, seg_concat, Function.update_self, Function.update_of_ne hpl,
        Function.update_self]
      exact ⟨⟨hfront, rfl⟩, rfl⟩
    · intro x hx hxp
      have hxl : x ≠ last := fun hxl => hx (by simp [hxl])
      rw [Function.update_of_ne hxl]
      exact hsame x hxp

/-- **A node is taken out.** -/
theorem IsList.unlink (h : IsList next a (pre ++ p :: post)) :
    IsList (LinkedList.unlink next a p (pre.getLast?.getD 0)).1
        (LinkedList.unlink next a p (pre.getLast?.getD 0)).2 (pre ++ post) ∧
      ∀ x, x ∉ pre → (LinkedList.unlink next a p (pre.getLast?.getD 0)).1 x = next x := by
  have hnodup := h.nodup
  rw [List.nodup_middle, List.nodup_cons] at hnodup
  have hnonzero : 0 ∉ pre ++ post := by
    intro hmem
    rw [List.mem_append] at hmem
    exact h.zero_notMem (List.mem_append.mpr (hmem.imp_right (List.mem_cons_of_mem _)))
  obtain ⟨c, hpre, rfl, hpost⟩ := seg_append.mp h.seg
  rcases List.eq_nil_or_concat pre with rfl | ⟨front, last, rfl⟩
  · obtain rfl : a = c := hpre
    rw [LinkedList.unlink, if_pos rfl]
    exact ⟨⟨hpost, hnodup.2, hnonzero⟩, fun x _ => rfl⟩
  · rw [List.concat_eq_append] at *
    have hpa : c ≠ a := by
      rintro rfl
      cases front with
      | nil => exact hnodup.1 (by rw [IsList.head_eq h]; simp)
      | cons x front => exact hnodup.1 (by rw [IsList.head_eq h]; simp)
    have hprev : (front ++ [last]).getLast?.getD 0 = last := by simp
    rw [LinkedList.unlink, if_neg hpa, hprev]
    have hothers := hnodup.2
    rw [List.append_assoc, List.nodup_append] at hothers
    refine ⟨⟨?_, hnodup.2, hnonzero⟩, ?_⟩
    · obtain ⟨hfront, -⟩ := seg_concat.mp hpre
      rw [seg_append]
      refine ⟨next c, seg_concat.mpr ⟨hfront.congr fun x hx => ?_, Function.update_self _ _ _⟩, ?_⟩
      · refine Function.update_of_ne ?_ _ _
        rintro rfl
        exact hothers.2.2 x hx x (by simp) rfl
      · refine hpost.congr fun x hx => Function.update_of_ne ?_ _ _
        rintro rfl
        exact (List.nodup_cons.mp hothers.2.1).1 hx
    · intro x hx
      exact Function.update_of_ne (fun h => hx (by simp [h])) _ _

end Ends

/-! ## Looking for a node -/

/-- The first node from `a` on with a property, or the null pointer. -/
def findNode (next : ℕ → ℕ) (c : ℕ → Bool) : ℕ → ℕ → Option ℕ
  | 0, _ => none
  | fuel + 1, a => if a = 0 ∨ c a = true then some a else findNode next c fuel (next a)

theorem findNode_eq {next : ℕ → ℕ} {c : ℕ → Bool} {a fuel : ℕ} {q : List ℕ} (h : Seg next a q 0)
    (hzero : 0 ∉ q) (hfuel : q.length < fuel) :
    findNode next c fuel a = some ((q.find? c).getD 0) := by
  induction q generalizing a fuel with
  | nil =>
      obtain ⟨fuel, rfl⟩ := Nat.exists_eq_add_of_lt hfuel
      have hend : a = 0 := h
      simp [findNode, hend]
  | cons x q ih =>
      obtain ⟨fuel, rfl⟩ := Nat.exists_eq_add_of_lt hfuel
      obtain ⟨rfl, hrest⟩ := h
      have hne : a ≠ 0 := fun h => hzero (by simp [h])
      rw [List.length_cons, findNode, List.find?_cons]
      cases hc : c a with
      | true => simp
      | false =>
          rw [if_neg (by simp [hne])]
          exact ih hrest (fun h => hzero (List.mem_cons_of_mem _ h)) (by omega)

end LinkedList
