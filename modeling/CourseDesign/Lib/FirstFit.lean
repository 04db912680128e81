import Mathlib.Data.List.Basic
import Mathlib.Algebra.Order.Group.Nat

/-!
# First fit

A heap as a row of blocks.  A request takes the first free block that is large enough, merges the
free blocks it passes with their free neighbours, and gives back what is left if that is worth a
block.

* `used` — where the blocks in use are; they never overlap (`used_pairwise`).
* `search_failed`, `search_found` — the search moves no block in use.
* `used_row_cut` — a request that succeeds adds one, and `mem_used_release` takes one away.
* `meets_of_search_failed` — a request fails only if no free stretch is large enough.
-/

namespace FirstFit

/-- A block, with everything that belongs to it. -/
structure Block where
  len : ℕ
  inUse : Bool
  deriving DecidableEq, Repr

/-- The length of a row of blocks. -/
def span : List Block → ℕ
  | [] => 0
  | b :: bs => b.len + span bs

@[simp] theorem span_nil : span [] = 0 := rfl

@[simp] theorem span_cons (b : Block) (bs : List Block) : span (b :: bs) = b.len + span bs := rfl

@[simp] theorem span_append (bs cs : List Block) : span (bs ++ cs) = span bs + span cs := by
  induction bs with
  | nil => simp
  | cons b bs ih =>
      rw [List.cons_append, span_cons, span_cons, ih, Nat.add_assoc]

/-- The places and lengths of the blocks in use, of a row that begins at `a`. -/
def used : ℕ → List Block → List (ℕ × ℕ)
  | _, [] => []
  | a, b :: bs => if b.inUse then (a, b.len) :: used (a + b.len) bs else used (a + b.len) bs

@[simp] theorem used_nil (a : ℕ) : used a [] = [] := rfl

theorem used_append (a : ℕ) (bs cs : List Block) :
    used a (bs ++ cs) = used a bs ++ used (a + span bs) cs := by
  induction bs generalizing a with
  | nil => simp
  | cons b bs ih =>
      rw [List.cons_append, used, used, ih, span_cons, Nat.add_assoc]
      split
      · rfl
      · rfl

/-- A block in use is one of the row. -/
theorem mem_used_iff {a : ℕ} {bs : List Block} {x : ℕ × ℕ} :
    x ∈ used a bs ↔ ∃ pre post, bs = pre ++ ⟨x.2, true⟩ :: post ∧ x.1 = a + span pre := by
  induction bs generalizing a with
  | nil => simp
  | cons b bs ih =>
      obtain ⟨len, inUse⟩ := b
      constructor
      · intro hx
        cases inUse with
        | true =>
            rcases List.mem_cons.mp hx with rfl | hx
            · exact ⟨[], bs, rfl, rfl⟩
            · obtain ⟨pre, post, rfl, hplace⟩ := ih.mp hx
              exact ⟨⟨len, true⟩ :: pre, post, rfl, by rw [hplace, span_cons, Nat.add_assoc]⟩
        | false =>
            obtain ⟨pre, post, rfl, hplace⟩ := ih.mp hx
            exact ⟨⟨len, false⟩ :: pre, post, rfl, by rw [hplace, span_cons, Nat.add_assoc]⟩
      · rintro ⟨pre, post, hsplit, hplace⟩
        cases pre with
        | nil =>
            obtain ⟨hb, rfl⟩ := List.cons.inj hsplit
            obtain ⟨rfl, rfl⟩ := Block.mk.inj hb
            have hx : x = (a, x.2) := Prod.ext hplace rfl
            rw [hx]
            exact List.mem_cons_self
        | cons c pre =>
            obtain ⟨rfl, rfl⟩ := List.cons.inj hsplit
            have hmem : x ∈ used (a + len) (pre ++ ⟨x.2, true⟩ :: post) :=
              ih.mpr ⟨pre, post, rfl, by rw [hplace, span_cons, Nat.add_assoc]⟩
            rw [used]
            split
            · exact List.mem_cons_of_mem _ hmem
            · exact hmem

/-- A block in use lies in the row. -/
theorem used_bounds {a : ℕ} {bs : List Block} {x : ℕ × ℕ} (h : x ∈ used a bs) :
    a ≤ x.1 ∧ x.1 + x.2 ≤ a + span bs := by
  obtain ⟨pre, post, rfl, hplace⟩ := mem_used_iff.mp h
  simp only [span_append, span_cons]
  omega

/-- **Blocks in use do not overlap.** -/
theorem used_pairwise (a : ℕ) (bs : List Block) :
    (used a bs).Pairwise fun x y => x.1 + x.2 ≤ y.1 := by
  induction bs generalizing a with
  | nil => exact List.Pairwise.nil
  | cons b bs ih =>
      rw [used]
      split
      · exact List.Pairwise.cons (fun y hy => (used_bounds hy).1) (ih _)
      · exact ih _

/-- The other blocks in use lie in front of a block in use or behind it. -/
theorem used_apart {a : ℕ} {bs : List Block} {xs ys : List (ℕ × ℕ)} {u x : ℕ × ℕ}
    (h : used a bs = xs ++ u :: ys) (hx : x ∈ xs ++ ys) :
    x.1 + x.2 ≤ u.1 ∨ u.1 + u.2 ≤ x.1 := by
  have hpair := used_pairwise a bs
  rw [h, List.pairwise_append] at hpair
  obtain ⟨-, hbehind, hcross⟩ := hpair
  rcases List.mem_append.mp hx with hx | hx
  · exact Or.inl (hcross x hx u List.mem_cons_self)
  · exact Or.inr ((List.pairwise_cons.mp hbehind).1 x hx)

/-- Two blocks in use are the same, or one ends before the other begins. -/
theorem used_disjoint {a : ℕ} {bs : List Block} {x y : ℕ × ℕ} (hx : x ∈ used a bs)
    (hy : y ∈ used a bs) : x = y ∨ x.1 + x.2 ≤ y.1 ∨ y.1 + y.2 ≤ x.1 := by
  obtain ⟨pre, post, rfl, hplace⟩ := mem_used_iff.mp hx
  have hsplit : used a (pre ++ ⟨x.2, true⟩ :: post) =
      used a pre ++ x :: used (x.1 + x.2) post := by
    rw [used_append, ← hplace, used, if_pos rfl]
  rw [hsplit] at hy
  rcases List.mem_append.mp hy with hy | hy
  · have hbounds := used_bounds hy
    exact Or.inr (Or.inr (by omega))
  · rcases List.mem_cons.mp hy with rfl | hy
    · exact Or.inl rfl
    · have hbounds := used_bounds hy
      exact Or.inr (Or.inl hbounds.1)

/-! ## A request -/

/-- A free run that was passed, as a block. -/
def grown : Option ℕ → List Block
  | none => []
  | some n => [⟨n, false⟩]

/-- The search for `size`.  `g` is the length of the free run that ends in front of the blocks; the
result is what was passed, with its free runs merged, and the free block that was found with what is
behind it. -/
def search (size : ℕ) : Option ℕ → List Block → List Block × Option (ℕ × List Block)
  | g, [] => (grown g, none)
  | g, b :: bs =>
      if b.inUse then
        let r := search size none bs
        (grown g ++ b :: r.1, r.2)
      else if size ≤ g.getD 0 + b.len then ([], some (g.getD 0 + b.len, bs))
      else search size (some (g.getD 0 + b.len)) bs

/-- The row after a search, with the block found replaced. -/
def row (place : ℕ → List Block) : List Block × Option (ℕ × List Block) → List Block
  | (passed, none) => passed
  | (passed, some (n, rest)) => passed ++ (place n ++ rest)

/-- The block found, cut in two if the rest has at least `minLen`. -/
def cut (size minLen n : ℕ) : List Block :=
  if minLen ≤ n - size then [⟨size, true⟩, ⟨n - size, false⟩] else [⟨n, true⟩]

section Search

variable {size : ℕ} {g : Option ℕ} {bs passed rest : List Block} {n : ℕ}

@[simp] theorem span_grown (g : Option ℕ) : span (grown g) = g.getD 0 := by
  cases g with
  | none => rfl
  | some n => simp [grown]

@[simp] theorem used_grown (a : ℕ) (g : Option ℕ) : used a (grown g) = [] := by
  cases g with
  | none => rfl
  | some n => rfl

theorem search_inUse {b : Block} (hb : b.inUse = true) :
    search size g (b :: bs) =
      (grown g ++ b :: (search size none bs).1, (search size none bs).2) := by
  rw [search, if_pos hb]

theorem search_free {b : Block} (hb : ¬ b.inUse = true) :
    search size g (b :: bs) = if size ≤ g.getD 0 + b.len then ([], some (g.getD 0 + b.len, bs))
      else search size (some (g.getD 0 + b.len)) bs := by
  rw [search, if_neg hb]

/-- A search that fails has moved no block in use. -/
theorem search_failed (h : search size g bs = (passed, none)) (a : ℕ) :
    span passed = g.getD 0 + span bs ∧ used a passed = used (a + g.getD 0) bs := by
  induction bs generalizing g passed a with
  | nil =>
      obtain ⟨rfl, -⟩ := Prod.mk.inj h
      simp
  | cons b bs ih =>
      by_cases hb : b.inUse = true
      · rw [search_inUse hb] at h
        obtain ⟨rfl, hfound⟩ := Prod.mk.inj h
        have hrest : ∀ a, span (search size none bs).1 = span bs ∧
            used a (search size none bs).1 = used a bs := by
          intro a
          simpa using ih (Prod.ext rfl hfound) a
        simp only [span_append, span_cons, span_grown, (hrest 0).1, used_append, used_grown, used,
          hb, if_true, (hrest _).2, List.nil_append, and_self]
      · rw [search_free hb] at h
        split at h
        · cases h
        · obtain ⟨hspan, hused⟩ := ih h a
          rw [hspan, hused, used, if_neg hb, span_cons, Option.getD_some, Nat.add_assoc,
            Nat.add_assoc]
          exact ⟨rfl, rfl⟩

/-- A search that succeeds has moved no block in use, and the block it found is free and large
enough. -/
theorem search_found (h : search size g bs = (passed, some (n, rest))) (a : ℕ) :
    size ≤ n ∧ span passed + (n + span rest) = g.getD 0 + span bs ∧
      used a passed ++ used (a + span passed + n) rest = used (a + g.getD 0) bs := by
  induction bs generalizing g passed a with
  | nil => cases h
  | cons b bs ih =>
      by_cases hb : b.inUse = true
      · rw [search_inUse hb] at h
        obtain ⟨rfl, hfound⟩ := Prod.mk.inj h
        have hrec : search size none bs = ((search size none bs).1, some (n, rest)) :=
          Prod.ext rfl hfound
        obtain ⟨hsize, hspan, hused⟩ := ih hrec (a + g.getD 0 + b.len)
        simp only [Option.getD_none, Nat.zero_add, Nat.add_zero] at hspan hused
        refine ⟨hsize, ?_, ?_⟩
        · simp only [span_append, span_cons, span_grown]
          omega
        · rw [used_append, used_grown, span_grown, used, if_pos hb, used, if_pos hb, ← hused]
          simp only [span_append, span_cons, span_grown, List.nil_append, List.cons_append,
            Nat.add_assoc]
      · rw [search_free hb] at h
        split at h
        case isTrue hsize =>
          obtain ⟨rfl, hfound⟩ := Prod.mk.inj h
          obtain ⟨rfl, rfl⟩ := Prod.mk.inj (Option.some.inj hfound)
          refine ⟨hsize, ?_, ?_⟩
          · rw [span_nil, span_cons, Nat.zero_add, Nat.add_assoc]
          · rw [used_nil, List.nil_append, span_nil, Nat.add_zero, used, if_neg hb, Nat.add_assoc]
        case isFalse _ =>
          obtain ⟨hsize, hspan, hused⟩ := ih h a
          refine ⟨hsize, ?_, ?_⟩
          · rw [hspan, Option.getD_some, span_cons, Nat.add_assoc]
          · rw [hused, used, if_neg hb, Option.getD_some, Nat.add_assoc]

/-- **A search fails only for want of room**: every stretch of `size` meets a block in use. -/
theorem meets_of_search_failed (h : search size g bs = (passed, none)) (hg : g.getD 0 < size)
    {a x : ℕ} (ha : a ≤ x) (hx : x + size ≤ a + g.getD 0 + span bs) :
    ∃ u ∈ used (a + g.getD 0) bs, u.1 < x + size ∧ x < u.1 + u.2 := by
  induction bs generalizing g passed a with
  | nil =>
      rw [span_nil] at hx
      omega
  | cons b bs ih =>
      rw [span_cons] at hx
      by_cases hb : b.inUse = true
      · rw [search_inUse hb] at h
        obtain ⟨-, hfound⟩ := Prod.mk.inj h
        rw [used, if_pos hb]
        rcases Nat.lt_or_ge x (a + g.getD 0 + b.len) with hbefore | hbehind
        · exact ⟨_, List.mem_cons_self, by omega, hbefore⟩
        · obtain ⟨u, hu, hmeets⟩ := ih (g := none) (Prod.ext rfl hfound) (by simp; omega) hbehind
            (by simp; omega)
          exact ⟨u, List.mem_cons_of_mem _ hu, hmeets⟩
      · rw [search_free hb] at h
        split at h
        · cases h
        case isFalse hsize =>
          rw [used, if_neg hb, Nat.add_assoc]
          exact ih (g := some (g.getD 0 + b.len)) h (by simp; omega) ha (by simp; omega)

/-- The block found, which keeps less than `minLen` bytes too many, and what is given back of it. -/
theorem cut_cons (minLen : ℕ) (h : size ≤ n) : ∃ k frees,
    cut size minLen n = ⟨k, true⟩ :: frees ∧ size ≤ k ∧ k ≤ size + (minLen - 1) ∧
      k + span frees = n ∧ ∀ a, used a frees = [] := by
  rw [cut]
  split
  · refine ⟨size, [⟨n - size, false⟩], rfl, le_refl size, by omega, ?_, fun _ => rfl⟩
    simp only [span_cons, span_nil]
    omega
  · exact ⟨n, [], rfl, h, by omega, rfl, fun _ => rfl⟩

/-- **A request that succeeds** adds one block in use, of at least its size. -/
theorem used_row_cut (minLen : ℕ) (h : search size g bs = (passed, some (n, rest))) (a : ℕ) :
    ∃ k frees, cut size minLen n = ⟨k, true⟩ :: frees ∧ size ≤ k ∧ k ≤ size + (minLen - 1) ∧
      used a (row (cut size minLen) (passed, some (n, rest))) =
        used a passed ++ (a + span passed, k) :: used (a + span passed + n) rest := by
  obtain ⟨k, frees, hcut, hsize, hless, hspan, hfrees⟩ := cut_cons minLen (search_found h a).1
  refine ⟨k, frees, hcut, hsize, hless, ?_⟩
  rw [row, hcut, List.cons_append, used_append, used, if_pos rfl, used_append, hfrees,
    List.nil_append, ← hspan]
  simp only [Nat.add_assoc]

end Search

/-! ## Giving back -/

theorem used_mid (a : ℕ) (pre : List Block) (len : ℕ) (post : List Block) :
    used a (pre ++ ⟨len, true⟩ :: post) =
        used a pre ++ (a + span pre, len) :: used (a + span pre + len) post ∧
      used a (pre ++ ⟨len, false⟩ :: post) = used a pre ++ used (a + span pre + len) post := by
  simp [used_append, used]

/-- **Giving back a block** takes away its use, and no other. -/
theorem mem_used_release {a len : ℕ} {pre post : List Block} (hpre : ∀ b ∈ pre, 0 < b.len)
    (hlen : 0 < len) {x : ℕ × ℕ} :
    x ∈ used a (pre ++ ⟨len, false⟩ :: post) ↔
      x ∈ used a (pre ++ ⟨len, true⟩ :: post) ∧ x.1 ≠ a + span pre := by
  rw [(used_mid a pre len post).1, (used_mid a pre len post).2, List.mem_append, List.mem_append,
    List.mem_cons]
  constructor
  · rintro (hx | hx)
    · obtain ⟨before, after, rfl, hplace⟩ := mem_used_iff.mp hx
      have hpos := hpre ⟨x.2, true⟩ (by simp)
      simp only [span_append, span_cons] at hpos ⊢
      exact ⟨Or.inl hx, by omega⟩
    · have hbounds := used_bounds hx
      exact ⟨Or.inr (Or.inr hx), by omega⟩
  · rintro ⟨hx | rfl | hx, hne⟩
    · exact Or.inl hx
    · exact absurd rfl hne
    · exact Or.inr hx

end FirstFit
