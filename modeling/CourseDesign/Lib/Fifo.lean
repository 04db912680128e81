import CourseDesign.Lib.Machine
import Mathlib.Data.List.Basic

/-!
# First in, first out

The queue as a machine with its history.  A component that hands things over in order is one whose
runs this machine can follow, and then what it handed over is a prefix of what it was given.

* `conserved_exec` — what was taken and what is still queued is always what was put.
-/

namespace Fifo

variable {α : Type*} [DecidableEq α]

/-- A queue, with everything that was ever put and ever taken. -/
structure State (α : Type*) where
  items : List α
  put : List α
  got : List α

/-- Put an element, or take this element from the front. -/
inductive Op (α : Type*) where
  | put (x : α)
  | get (x : α)

def fifo : Machine (State α) (Op α) where
  init := { items := [], put := [], got := [] }
  step q
    | .put x => some { q with items := q.items ++ [x], put := q.put ++ [x] }
    | .get x => Machine.when (q.items.head? = some x)
        { q with items := q.items.tail, got := q.got ++ [x] }

/-- Nothing is lost, duplicated or reordered. -/
def State.Conserved (q : State α) : Prop := q.got ++ q.items = q.put

theorem conserved_preserved : (@fifo α _).Preserves (fun _ _ => True) State.Conserved := by
  intro q op q' hq _ h
  cases op with
  | put x =>
      obtain rfl := Option.some.inj h
      rw [State.Conserved] at hq ⊢
      rw [← List.append_assoc, hq]
  | get x =>
      obtain ⟨hx, rfl⟩ := Machine.when_eq_some.mp h
      rw [State.Conserved] at hq ⊢
      obtain ⟨rest, hrest⟩ := List.head?_eq_some_iff.mp hx
      rw [← hq, hrest]
      simp

theorem conserved_init : (@fifo α _).init.Conserved := rfl

/-- **Conservation** over any run of the queue. -/
theorem conserved_exec {q q' : State α} {ops : List (Op α)} (hq : q.Conserved)
    (h : fifo.exec q ops = some q') : q'.Conserved :=
  Machine.exec_of_preserves conserved_preserved hq
    (Machine.along_of_forall (fun _ _ => trivial) q) h

omit [DecidableEq α] in
/-- What was taken is a prefix of what was put. -/
theorem State.Conserved.got_prefix {q : State α} (h : q.Conserved) : q.got <+: q.put :=
  ⟨q.items, h⟩

end Fifo
