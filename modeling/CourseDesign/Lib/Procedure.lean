import Mathlib.Control.Lawful
import Mathlib.Data.Option.Basic
import Mathlib.Data.Nat.Notation
import Mathlib.Order.Basic

/-!
# Procedures that may fault

A procedure changes a state, gives a result back, and has no result at all where the program it
stands for has none: an access through a pointer that is not valid, a second `free`.

`Ends E m w Q` says that from `w` the procedure ends without a fault, with a result and a state that
meet `Q`; or it faults and `w` has the excuse `E`: what the program takes for granted will be
missing.  Without an excuse this is total correctness.  The rules take a procedure apart along its
binds, so that a proof cites one specification for each call.

* `ends_pure`, `Ends.then` — sequencing.
* `Ends.result`, `Ends.exists_result` — what a result meets, and that there is one.
* `Within` — the specification of a procedure by a relation of the states, and its composition.
-/

namespace Procedure

universe u

variable {ω : Type u} {α β : Type u}

/-- A procedure with result `α` on states `ω`. -/
abbrev Proc (ω α : Type u) := StateT ω Option α

/-- The access that no program may make. -/
def fault : Proc ω α := fun _ => none

/-- **Correctness up to an excuse**, which the state afterwards has only if this one has it. -/
def Ends (E : ω → Prop) (m : Proc ω α) (w : ω) (Q : α → ω → Prop) : Prop :=
  (∃ a w', m w = some (a, w') ∧ (E w' → E w) ∧ Q a w') ∨ m w = none ∧ E w

variable {E : ω → Prop} {m : Proc ω α} {f : α → Proc ω β} {w : ω} {Q R : α → ω → Prop}

theorem ends_of_eq {a : α} {w' : ω} (h : m w = some (a, w')) (hE : E w' → E w) (hQ : Q a w') :
    Ends E m w Q := Or.inl ⟨a, w', h, hE, hQ⟩

/-- Whatever the result is, it meets the specification. -/
theorem Ends.result {a : α} {w' : ω} (h : Ends E m w Q) (hm : m w = some (a, w')) : Q a w' := by
  rcases h with ⟨a', w'', hm', -, hQ⟩ | ⟨hnone, -⟩
  · rw [hm] at hm'
    obtain ⟨rfl, rfl⟩ := Prod.mk.inj (Option.some.inj hm')
    exact hQ
  · rw [hm] at hnone
    cases hnone

/-- Without an excuse there is a result. -/
theorem Ends.exists_result (h : Ends E m w Q) (hE : ¬ E w) :
    ∃ a w', m w = some (a, w') ∧ Q a w' := by
  rcases h with ⟨a, w', hm, -, hQ⟩ | ⟨-, hexcuse⟩
  · exact ⟨a, w', hm, hQ⟩
  · exact absurd hexcuse hE

theorem ends_pure {a : α} (h : Q a w) : Ends E (pure a) w Q := ends_of_eq rfl id h

theorem Ends.mono (h : Ends E m w Q) (hQ : ∀ a w', Q a w' → R a w') : Ends E m w R := by
  rcases h with ⟨a, w', hm, hE, h⟩ | hfault
  · exact Or.inl ⟨a, w', hm, hE, hQ a w' h⟩
  · exact Or.inr hfault

/-- **Sequencing**, from a specification of the first part. -/
theorem Ends.then {S : β → ω → Prop} (h : Ends E m w Q) (hf : ∀ a w', Q a w' → Ends E (f a) w' S) :
    Ends E (m >>= f) w S := by
  rcases h with ⟨a, w₁, hm, hE, hQ⟩ | ⟨hm, hE⟩
  · have hrun : (m >>= f) w = f a w₁ := by
      show (m w).bind _ = _
      rw [hm]
      rfl
    rcases hf a w₁ hQ with ⟨b, w₂, hb, hE', hS⟩ | ⟨hb, hE'⟩
    · exact Or.inl ⟨b, w₂, hrun.trans hb, fun h => hE (hE' h), hS⟩
    · exact Or.inr ⟨hrun.trans hb, hE hE'⟩
  · refine Or.inr ⟨?_, hE⟩
    show (m w).bind _ = _
    rw [hm]
    rfl

/-- What always ends in a fault. -/
theorem bind_fault (m : Proc ω α) : (m >>= fun _ => (fault : Proc ω β)) = fault := by
  funext w
  show (m w).bind _ = none
  cases m w with
  | none => rfl
  | some r => rfl

theorem fault_bind (f : α → Proc ω β) : (fault >>= f) = fault := rfl

/-- The procedure ends in a state that is related to the one it started in. -/
def Within (E : ω → Prop) (r : ω → ω → Prop) (m : Proc ω α) : Prop :=
  ∀ w, Ends E m w fun _ w' => r w w'

variable {r s t : ω → ω → Prop}

theorem within_pure (hrefl : ∀ w, r w w) (a : α) : Within E r (pure a : Proc ω α) := by
  intro w
  exact ends_pure (hrefl w)

/-- **The composition** of two procedures by the composition of their relations. -/
theorem Within.bind (hm : Within E r m) (hf : ∀ a, Within E s (f a))
    (htrans : ∀ {w₁ w₂ w₃}, r w₁ w₂ → s w₂ w₃ → t w₁ w₃) : Within E t (m >>= f) := by
  intro w
  exact (hm w).then fun a w₁ h₁ => (hf a w₁).mono fun _ w₂ h₂ => htrans h₁ h₂

end Procedure
