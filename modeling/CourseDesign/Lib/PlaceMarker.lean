import Mathlib.Data.List.Basic
import Mathlib.Data.List.MinMax

/-!
# Numbered place markers

A text with markers `%1`, `%2`, … is filled in one value at a time, as `QString::arg` does it: `arg`
puts the value in every place that has the lowest number of all markers in the text.  A value that
was put in is text like any other to the next `arg`, so markers in it count as well.

* `arg_append` — text without a per cent sign in front of the markers stays as it is.
-/

namespace PlaceMarker

/-- The value of a decimal digit. -/
def digit (c : Char) : ℕ := c.toNat - '0'.toNat

/-- One or two digits at the head of a text: their number, and how many they are. -/
def digits : List Char → Option (ℕ × ℕ)
  | [] => none
  | [d] => if d.isDigit then some (digit d, 1) else none
  | d :: e :: _ =>
      if d.isDigit then
        if e.isDigit then some (10 * digit d + digit e, 2) else some (digit d, 1)
      else none

/-- The marker at the head of a text: its number and its length.  An `L` asks for a localised
value. -/
def marker : List Char → Option (ℕ × ℕ)
  | '%' :: 'L' :: cs => (digits cs).map fun x => (x.1, x.2 + 2)
  | '%' :: cs => (digits cs).map fun x => (x.1, x.2 + 1)
  | _ => none

/-- The numbers of all markers of a text. -/
def numbers : List Char → List ℕ
  | [] => []
  | c :: cs => ((marker (c :: cs)).map Prod.fst).toList ++ numbers cs

/-- Put a value in every place with number `n`; the first `skip` characters are part of a marker
that was replaced. -/
def fill (n : ℕ) (value : List Char) : ℕ → List Char → List Char
  | _, [] => []
  | skip + 1, _ :: cs => fill n value skip cs
  | 0, c :: cs =>
      match marker (c :: cs) with
      | some (m, len) =>
          if m = n then value ++ fill n value (len - 1) cs else c :: fill n value 0 cs
      | none => c :: fill n value 0 cs

/-- `text.arg(value)`; a text without markers stays as it is. -/
def arg (text value : List Char) : List Char :=
  match (numbers text).min? with
  | some n => fill n value 0 text
  | none => text

theorem marker_eq_none {c : Char} (hc : c ≠ '%') (cs : List Char) : marker (c :: cs) = none := by
  unfold marker
  split
  · rename_i heq
    exact absurd (List.cons.inj heq).1 hc
  · rename_i heq
    exact absurd (List.cons.inj heq).1 hc
  · rfl

theorem numbers_append {pre text : List Char} (hpre : '%' ∉ pre) :
    numbers (pre ++ text) = numbers text := by
  induction pre with
  | nil => rfl
  | cons c pre ih =>
      rw [List.mem_cons, not_or] at hpre
      rw [List.cons_append, numbers, marker_eq_none (Ne.symm hpre.1), ih hpre.2]
      rfl

theorem fill_append {pre text : List Char} (n : ℕ) (value : List Char) (hpre : '%' ∉ pre) :
    fill n value 0 (pre ++ text) = pre ++ fill n value 0 text := by
  induction pre with
  | nil => rfl
  | cons c pre ih =>
      rw [List.mem_cons, not_or] at hpre
      rw [List.cons_append, fill, marker_eq_none (Ne.symm hpre.1), List.cons_append]
      exact congrArg _ (ih hpre.2)

/-- **What comes before the first marker is not touched.** -/
theorem arg_append {pre text : List Char} (value : List Char) (hpre : '%' ∉ pre) :
    arg (pre ++ text) value = pre ++ arg text value := by
  unfold arg
  rw [numbers_append hpre]
  split
  · exact fill_append _ value hpre
  · rfl

/-- A marker in a value is filled in by the next `arg`. -/
example : arg (arg "'%1', '%2'".toList "%2".toList) "x".toList = "'x', 'x'".toList := by decide

end PlaceMarker
