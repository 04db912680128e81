import Mathlib.Data.List.Basic
import Mathlib.Data.Nat.Notation

/-!
# Messages cut into all-or-none writes

A buffer with some room left takes each block of a message entirely or not at all, and whoever
writes the blocks does not look at the result: `accepted` is what gets in.

* `accepted_eq_flatten_iff` — the whole message gets in if and only if it fits.
* `accepted_eq_nil_iff` — none of it gets in if and only if no block fits.
-/

namespace AllOrNone

variable {α : Type*}

def accepted : ℕ → List (List α) → List α
  | _, [] => []
  | room, b :: bs => if b.length ≤ room then b ++ accepted (room - b.length) bs else accepted room bs

theorem length_accepted_le (room : ℕ) (bs : List (List α)) :
    (accepted room bs).length ≤ room := by
  induction bs generalizing room with
  | nil => simp [accepted]
  | cons b bs ih =>
      rw [accepted]
      split_ifs with hfits
      · have hrest := ih (room - b.length)
        rw [List.length_append]
        omega
      · exact ih room

/-- **All of it.** -/
theorem accepted_eq_flatten_iff {room : ℕ} {bs : List (List α)} :
    accepted room bs = bs.flatten ↔ bs.flatten.length ≤ room := by
  constructor
  · intro h
    rw [← h]
    exact length_accepted_le room bs
  · intro h
    induction bs generalizing room with
    | nil => rfl
    | cons b bs ih =>
        rw [List.flatten_cons, List.length_append] at h
        rw [accepted, if_pos (by omega), ih (by omega), List.flatten_cons]

/-- **None of it.** -/
theorem accepted_eq_nil_iff {room : ℕ} {bs : List (List α)} (hne : ∀ b ∈ bs, b ≠ []) :
    accepted room bs = [] ↔ ∀ b ∈ bs, room < b.length := by
  induction bs with
  | nil => simp [accepted]
  | cons b bs ih =>
      have hb : b ≠ [] := hne b (by simp)
      have hrest := ih fun c hc => hne c (by simp [hc])
      rw [accepted]
      split_ifs with hfits
      · constructor
        · intro h
          exact absurd (List.append_eq_nil_iff.mp h).1 hb
        · intro h
          have hlt := h b (by simp)
          omega
      · rw [hrest, List.forall_mem_cons]
        exact ⟨fun h => ⟨by omega, h⟩, fun h => h.2⟩

/-- A message that is neither taken whole nor left out: there is room for some block of it and not
for all. -/
theorem whole_or_none_iff {room : ℕ} {bs : List (List α)} (hne : ∀ b ∈ bs, b ≠ []) :
    (accepted room bs = bs.flatten ∨ accepted room bs = []) ↔
      bs.flatten.length ≤ room ∨ ∀ b ∈ bs, room < b.length := by
  rw [accepted_eq_flatten_iff, accepted_eq_nil_iff hne]

end AllOrNone
