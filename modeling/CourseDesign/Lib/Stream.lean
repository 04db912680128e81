import Mathlib.Data.List.Sort
import Mathlib.Order.Basic

/-!
# Pieces of a stream

A stream that was written in pieces and is read in pieces is one list cut in two ways.  A piece is
`located` by the number of elements in front of it, and two ways to cut the same stream are compared
by their located pieces.

* `located_pairwise` — nonempty pieces come in the order of their locations.
* `filter_located_eq_iff` — so the wanted pieces of two cuts agree, as lists, if they agree as sets.
* `filter_eq_self_of_flatten` — pieces picked from a cut that make up the whole stream are all of
  them.
* `blocks_prefix` — a stream of blocks of one size can be cut into such blocks in one way only.
-/

namespace Stream

variable {β : Type*}

/-- The pieces of a stream from position `o` on, each with its location. -/
def located : ℕ → List (List β) → List (ℕ × List β)
  | _, [] => []
  | o, p :: ps => (o, p) :: located (o + p.length) ps

@[simp] theorem located_nil (o : ℕ) : located o ([] : List (List β)) = [] := rfl

@[simp] theorem located_cons (o : ℕ) (p : List β) (ps : List (List β)) :
    located o (p :: ps) = (o, p) :: located (o + p.length) ps := rfl

theorem map_snd_located (o : ℕ) (ps : List (List β)) : (located o ps).map Prod.snd = ps := by
  induction ps generalizing o with
  | nil => rfl
  | cons p ps ih => rw [located_cons, List.map_cons, ih]

/-- Every location is at or after the position the pieces start from. -/
theorem le_of_mem_located {o : ℕ} {ps : List (List β)} {x : ℕ × List β}
    (h : x ∈ located o ps) : o ≤ x.1 := by
  induction ps generalizing o with
  | nil => simp at h
  | cons p ps ih =>
      rcases List.mem_cons.mp h with rfl | h
      · exact le_refl o
      · have hle := ih h
        omega

theorem located_pairwise {ps : List (List β)} (hne : ∀ p ∈ ps, p ≠ []) (o : ℕ) :
    (located o ps).Pairwise fun x y => x.1 < y.1 := by
  induction ps generalizing o with
  | nil => exact List.Pairwise.nil
  | cons p ps ih =>
      have hpos : 0 < p.length := List.length_pos_iff.mpr (hne p (by simp))
      refine List.Pairwise.cons (fun y hy => ?_) (ih (fun q hq => hne q (by simp [hq])) _)
      have hle := le_of_mem_located hy
      show o < y.1
      omega

/-- Two lists in strictly increasing order of a key have the same wanted members if and only if
their wanted parts are the same list. -/
theorem filter_eq_iff_of_pairwise {γ : Type*} (key : γ → ℕ) {xs ys : List γ} (w : γ → Bool)
    (hxs : xs.Pairwise fun x y => key x < key y) (hys : ys.Pairwise fun x y => key x < key y) :
    xs.filter w = ys.filter w ↔ ∀ x, w x = true → (x ∈ xs ↔ x ∈ ys) := by
  constructor
  · intro heq x hx
    have hmem : x ∈ xs.filter w ↔ x ∈ ys.filter w := by rw [heq]
    simpa [hx] using hmem
  · intro hmem
    have hirrefl : Std.Irrefl fun x y => key x < key y := ⟨fun x => lt_irrefl (key x)⟩
    have hantisymm : Std.Antisymm fun x y => key x < key y :=
      ⟨fun x y hxy hyx => absurd hxy (lt_asymm hyx)⟩
    refine (hxs.filter w).eq_of_mem_iff (hys.filter w) fun x => ?_
    rw [List.mem_filter, List.mem_filter, and_congr_left_iff]
    exact hmem x

/-- **Two cuts of a stream.**  The wanted pieces of two cuts are located alike, in the same order,
if and only if a wanted piece of either is a piece of the other, at the same place. -/
theorem filter_located_eq_iff {ps qs : List (List β)} (w : List β → Bool)
    (hps : ∀ p ∈ ps, p ≠ []) (hqs : ∀ q ∈ qs, q ≠ []) (o : ℕ) :
    (located o ps).filter (fun x => w x.2) = (located o qs).filter (fun x => w x.2) ↔
      ∀ at' piece, w piece = true →
        ((at', piece) ∈ located o ps ↔ (at', piece) ∈ located o qs) := by
  rw [filter_eq_iff_of_pairwise Prod.fst _ (located_pairwise hps o)
    (located_pairwise hqs o)]
  exact Prod.forall

theorem length_flatten_filter_le (w : List β → Bool) (ps : List (List β)) :
    (ps.filter w).flatten.length ≤ ps.flatten.length := by
  induction ps with
  | nil => exact le_refl _
  | cons p ps ih =>
      by_cases hp : w p = true
      · rw [List.filter_cons_of_pos hp]
        simpa using ih
      · rw [List.filter_cons_of_neg hp, List.flatten_cons, List.length_append]
        omega

/-- Pieces picked from a cut that make up the whole stream are all of its pieces. -/
theorem filter_eq_self_of_flatten {ps : List (List β)} {w : List β → Bool}
    (hne : ∀ p ∈ ps, p ≠ []) (h : (ps.filter w).flatten = ps.flatten) : ps.filter w = ps := by
  induction ps with
  | nil => rfl
  | cons p ps ih =>
      have hpos : 0 < p.length := List.length_pos_iff.mpr (hne p (by simp))
      by_cases hp : w p = true
      · rw [List.filter_cons_of_pos hp] at h ⊢
        rw [ih (fun q hq => hne q (by simp [hq])) (by simpa using h)]
      · rw [List.filter_cons_of_neg hp] at h
        have hlen := congrArg List.length h
        have hle := length_flatten_filter_le w ps
        simp only [List.flatten_cons, List.length_append] at hlen
        omega

/-! ## Blocks of one size -/

theorem length_flatten_blocks {n : ℕ} {ps : List (List β)} (hps : ∀ p ∈ ps, p.length = n) :
    ps.flatten.length = ps.length * n := by
  rw [List.length_flatten, List.map_congr_left hps, List.map_const', List.sum_replicate_nat]

/-- **Blocks of one size.**  If the blocks of one stream make up the beginning of another, they are
the first blocks of that other. -/
theorem blocks_prefix {n : ℕ} (hn : 0 < n) {ps qs : List (List β)} (hps : ∀ p ∈ ps, p.length = n)
    (hqs : ∀ q ∈ qs, q.length = n) (h : ps.flatten <+: qs.flatten) : ps <+: qs := by
  induction ps generalizing qs with
  | nil => exact List.nil_prefix
  | cons p ps ih =>
      have hp : p.length = n := hps p (by simp)
      cases qs with
      | nil =>
          have hlen := h.length_le
          simp only [List.flatten_cons, List.length_append, List.flatten_nil, List.length_nil] at hlen
          omega
      | cons q qs =>
          have hq : q.length = n := hqs q (by simp)
          obtain ⟨rest, hrest⟩ := h
          rw [List.flatten_cons, List.flatten_cons, List.append_assoc] at hrest
          obtain ⟨hpq, htail⟩ := List.append_inj hrest (hp.trans hq.symm)
          have hprefix := ih (fun x hx => hps x (by simp [hx])) (fun x hx => hqs x (by simp [hx]))
            ⟨rest, htail⟩
          rw [hpq]
          exact (List.prefix_cons_inj q).mpr hprefix

end Stream
