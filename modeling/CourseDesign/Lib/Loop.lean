import Mathlib.Data.Nat.Notation
import Mathlib.Logic.Basic
import Mathlib.Logic.Function.Basic

/-!
# Counted loops whose body may fail

`upTo n body` is `for(i = 0; i < n; i++) body`: the body gets the number of the round and the state,
and may stop the whole loop with an error.

* `upTo_iff` — the rule for a loop whose states are known in advance: if round `i` goes from `s i`
  to `s (i + 1)` under the condition `c i` and fails without it, the loop goes from `s 0` to `s n`
  under all the conditions and fails without one.  The conclusion has the form of the premise, so
  that the rule applies to nested loops from the inside out.
* `exists_upTo_iff` — the rule for a loop whose states do not matter.
* `upTo_of_invariant` — the rule for total correctness.
* `upTo_cells_of_invariant` — the same for a loop in a loop, through the cells of a table.
* `written` — memory after a number of single writes, and what it holds where.
-/

namespace Loop

variable {σ ε : Type*}

/-- `for(i = 0; i < n; i++) body`. -/
def upTo (body : ℕ → σ → Except ε σ) : ℕ → σ → Except ε σ
  | 0, s => .ok s
  | n + 1, s => (upTo body n s).bind (body n)

variable {body : ℕ → σ → Except ε σ} {n : ℕ}

theorem bind_eq_ok {α β : Type*} {x : Except ε α} {f : α → Except ε β} {b : β} :
    x.bind f = .ok b ↔ ∃ a, x = .ok a ∧ f a = .ok b := by
  cases x with
  | error e => simp [Except.bind]
  | ok a => simp [Except.bind]

/-- **The rule for known states.** -/
theorem upTo_iff {s : ℕ → σ} {c : ℕ → Prop}
    (hbody : ∀ i < n, ∀ t, body i (s i) = .ok t ↔ c i ∧ t = s (i + 1)) (t : σ) :
    upTo body n (s 0) = .ok t ↔ (∀ i < n, c i) ∧ t = s n := by
  induction n generalizing t with
  | zero => simp [upTo, eq_comm]
  | succ n ih =>
      have hrest := ih fun i hi => hbody i (Nat.lt_succ_of_lt hi)
      rw [upTo, bind_eq_ok]
      constructor
      · rintro ⟨u, hu, ht⟩
        obtain ⟨hall, rfl⟩ := (hrest u).mp hu
        obtain ⟨hlast, rfl⟩ := (hbody n (Nat.lt_succ_self n) t).mp ht
        refine ⟨fun i hi => ?_, rfl⟩
        rcases Nat.lt_succ_iff_lt_or_eq.mp hi with hlt | rfl
        · exact hall i hlt
        · exact hlast
      · rintro ⟨hall, ht⟩
        refine ⟨s n, (hrest _).mpr ⟨fun i hi => hall i (Nat.lt_succ_of_lt hi), rfl⟩, ?_⟩
        exact (hbody n (Nat.lt_succ_self n) t).mpr ⟨hall n (Nat.lt_succ_self n), ht⟩

/-- **The rule for checks alone**: if whether a round fails does not depend on the state, the loop
fails if and only if a round does. -/
theorem exists_upTo_iff {c : ℕ → Prop} (hbody : ∀ i < n, ∀ s, (∃ t, body i s = .ok t) ↔ c i)
    (s : σ) : (∃ t, upTo body n s = .ok t) ↔ ∀ i < n, c i := by
  induction n with
  | zero => simp [upTo]
  | succ n ih =>
      have hrest := ih fun i hi => hbody i (Nat.lt_succ_of_lt hi)
      simp only [upTo, bind_eq_ok]
      constructor
      · rintro ⟨t, u, hu, ht⟩ i hi
        rcases Nat.lt_succ_iff_lt_or_eq.mp hi with hlt | rfl
        · exact hrest.mp ⟨u, hu⟩ i hlt
        · exact (hbody i hi u).mp ⟨t, ht⟩
      · intro hall
        obtain ⟨u, hu⟩ := hrest.mpr fun i hi => hall i (Nat.lt_succ_of_lt hi)
        obtain ⟨t, ht⟩ := (hbody n (Nat.lt_succ_self n) u).mpr (hall n (Nat.lt_succ_self n))
        exact ⟨t, u, hu, ht⟩

/-- **The rule for total correctness**: an invariant that every round keeps without failing. -/
theorem upTo_of_invariant {I : ℕ → σ → Prop}
    (hbody : ∀ i < n, ∀ s, I i s → ∃ t, body i s = .ok t ∧ I (i + 1) t) {s : σ} (hs : I 0 s) :
    ∃ t, upTo body n s = .ok t ∧ I n t := by
  induction n with
  | zero => exact ⟨s, rfl, hs⟩
  | succ n ih =>
      obtain ⟨u, hu, hI⟩ := ih fun i hi => hbody i (Nat.lt_succ_of_lt hi)
      obtain ⟨t, ht, hI'⟩ := hbody n (Nat.lt_succ_self n) u hI
      exact ⟨t, bind_eq_ok.mpr ⟨u, hu, ht⟩, hI'⟩

/-- **The rule for a loop in a loop**: an invariant of the cells row by row, `I i j` before cell `j`
of row `i`. -/
theorem upTo_cells_of_invariant {cell : ℕ → ℕ → σ → Except ε σ} {m : ℕ} {I : ℕ → ℕ → σ → Prop}
    (hcell : ∀ i < n, ∀ j < m, ∀ s, I i j s → ∃ t, cell i j s = .ok t ∧ I i (j + 1) t)
    (hrow : ∀ i s, I i m s → I (i + 1) 0 s) {s : σ} (hs : I 0 0 s) :
    ∃ t, upTo (fun i => upTo (cell i) m) n s = .ok t ∧ I n 0 t := by
  refine upTo_of_invariant (I := fun i s => I i 0 s) (fun i hi s hi0 => ?_) hs
  obtain ⟨t, ht, hend⟩ := upTo_of_invariant (hcell i hi) hi0
  exact ⟨t, ht, hrow i t hend⟩

/-! ## Single writes -/

section Memory

variable {κ β : Type*} [DecidableEq κ]

/-- Memory `m` after the first `n` of the writes of `val i` at `addr i`. -/
def written (addr : ℕ → κ) (val : ℕ → β) (m : κ → β) : ℕ → κ → β
  | 0 => m
  | n + 1 => Function.update (written addr val m n) (addr n) (val n)

variable {addr : ℕ → κ} {val : ℕ → β} {m : κ → β}

/-- Where nothing is written, nothing changes. -/
theorem written_of_ne {k : κ} (h : ∀ i < n, addr i ≠ k) : written addr val m n k = m k := by
  induction n with
  | zero => rfl
  | succ n ih =>
      have hne : k ≠ addr n := (h n (Nat.lt_succ_self n)).symm
      rw [written, Function.update_of_ne hne, ih fun i hi => h i (Nat.lt_succ_of_lt hi)]

/-- What is written only once is what is there. -/
theorem written_of_injOn {i : ℕ} (hi : i < n) (h : ∀ j < n, addr j = addr i → j = i) :
    written addr val m n (addr i) = val i := by
  induction n with
  | zero => exact absurd hi (Nat.not_lt_zero i)
  | succ n ih =>
      rcases Nat.lt_succ_iff_lt_or_eq.mp hi with hlt | rfl
      · have hne : addr i ≠ addr n := by
          intro heq
          exact absurd (h n (Nat.lt_succ_self n) heq.symm) (Nat.ne_of_gt hlt)
        rw [written, Function.update_of_ne hne, ih hlt fun j hj => h j (Nat.lt_succ_of_lt hj)]
      · rw [written, Function.update_self]

end Memory

end Loop
