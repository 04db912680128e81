import CourseDesign.Lib.Fifo
import Mathlib.Logic.Function.Basic

/-!
# Mailboxes

One queue for each receiver.  A component that delivers messages is one whose runs these machines
can follow: a receiver gets what was posted to it, in that order, and nothing only if nothing waits.
-/

namespace Mailbox

variable {ι α : Type*} [DecidableEq ι] [DecidableEq α]

/-- Post to a receiver, or what a receiver fetches. -/
inductive Op (ι α : Type*) where
  | post (i : ι) (x : α)
  | fetch (i : ι) (x : Option α)

def mailboxes (ι α : Type*) [DecidableEq ι] [DecidableEq α] :
    Machine (ι → Fifo.State α) (Op ι α) where
  init := fun _ => Fifo.fifo.init
  step s
    | .post i x => (Fifo.fifo.step (s i) (.put x)).map (Function.update s i)
    | .fetch i (some x) => (Fifo.fifo.step (s i) (.get x)).map (Function.update s i)
    | .fetch i none => Machine.when ((s i).items = []) s

theorem conserved_update {s : ι → Fifo.State α} {i : ι} {q : Fifo.State α} {op : Fifo.Op α}
    (hs : ∀ j, (s j).Conserved) (hstep : Fifo.fifo.step (s i) op = some q) (j : ι) :
    (Function.update s i q j).Conserved := by
  by_cases hj : j = i
  · rw [hj, Function.update_self]
    exact Fifo.conserved_preserved (hs i) trivial hstep
  · rw [Function.update_of_ne hj]
    exact hs j

/-- **Conservation**: at every moment a receiver got the first of what was posted to it, and the
rest waits. -/
theorem conserved_exec {s : ι → Fifo.State α} {ops : List (Op ι α)}
    (h : (mailboxes ι α).exec (mailboxes ι α).init ops = some s) (i : ι) : (s i).Conserved := by
  have hpreserved : (mailboxes ι α).Preserves (fun _ _ => True) fun s => ∀ j, (s j).Conserved := by
    intro s op s' hs _ hstep
    cases op with
    | post i x =>
        simp only [mailboxes, Option.map_eq_some_iff] at hstep
        obtain ⟨q, hq, rfl⟩ := hstep
        exact conserved_update hs hq
    | fetch i x =>
        cases x with
        | none =>
            obtain ⟨-, rfl⟩ := Machine.when_eq_some.mp hstep
            exact hs
        | some x =>
            simp only [mailboxes, Option.map_eq_some_iff] at hstep
            obtain ⟨q, hq, rfl⟩ := hstep
            exact conserved_update hs hq
  exact Machine.exec_of_preserves hpreserved (fun _ => Fifo.conserved_init)
    (Machine.along_of_forall (fun _ _ => trivial) _) h i

end Mailbox
