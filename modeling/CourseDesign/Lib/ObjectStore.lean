import CourseDesign.Lib.Machine
import Mathlib.Logic.Function.Basic
import Mathlib.Data.Option.Basic

/-!
# A store of objects

What an allocator is for: an object has a name, a size and its cells, and nothing changes a cell but
a write to it.  What a new object holds is open, so the label says it.
-/

namespace ObjectStore

/-- An object. -/
structure Object (β : Type*) where
  size : ℕ
  cell : ℕ → β

/-- What is asked of the store, and what it answers. -/
inductive Op (ι β : Type*)
  | new (p : ι) (o : Object β)
  | drop (p : ι)
  | put (p : ι) (i : ℕ) (b : β)
  | get (p : ι) (i : ℕ) (b : β)

variable {ι β : Type*} [DecidableEq ι] [DecidableEq β]

/-- The store.  A name is given again only after it was dropped, and a get answers the cell. -/
def store (ι β : Type*) [DecidableEq ι] [DecidableEq β] :
    Machine (ι → Option (Object β)) (Op ι β) where
  init := fun _ => none
  step s
    | .new p o => Machine.when (s p = none) (Function.update s p (some o))
    | .drop p => Machine.when (s p ≠ none) (Function.update s p none)
    | .put p i b => (s p).bind fun o => Machine.when (i < o.size)
        (Function.update s p (some { o with cell := Function.update o.cell i b }))
    | .get p i b => (s p).bind fun o => Machine.when (i < o.size ∧ o.cell i = b) s

end ObjectStore
