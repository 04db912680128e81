import CourseDesign.Drivers.LcdDrv
import Mathlib.Algebra.BigOperators.Group.List.Basic
import Mathlib.Algebra.Order.Ring.Int

/-!
# What the virtual LCD stores and what it reports

`ubuntu_lcd_write` called any number of times, with any data and any outcome of its copies, as long
as the data fit `virt_mem`.

* `exec_writes` — memory and position agree: the data of the successful writes, one after another,
  and a failed write leaves both alone.  The return values add up to nothing.
* `accounted_iff` — so the three agree only while nothing is stored.
* `retry_stores_copies` — a caller that repeats a write until it is reported stores it again and
  again.
-/

namespace CourseDesign.Drivers

/-- The data of one call, and how far its copy gets. -/
structure WriteCall where
  buf : List UInt8
  moved : ℕ
  deriving DecidableEq, Repr

def WriteCall.action (w : WriteCall) : LcdAction := .write w.buf w.moved

/-- The data of the writes whose copy did not fail. -/
def successes (ws : List WriteCall) : List (List UInt8) :=
  (ws.filter fun w => w.buf.length ≤ w.moved).map WriteCall.buf

def totalLength (ws : List WriteCall) : ℕ := (ws.map fun w => w.buf.length).sum

/-- The sum of the non-negative return values. -/
def reported (returns : List ℤ) : ℤ := (returns.filter fun r => 0 ≤ r).sum

/-- Memory, position and return values agree on what was written. -/
structure Accounted (ws : List WriteCall) (s : LcdState) : Prop where
  stored : s.virtMem.load 0 s.pos = (successes ws).flatten
  position : s.pos = (successes ws).flatten.length
  /-- A write that fails now leaves the position and the bytes below it. -/
  fault : ∀ buf moved, moved < buf.length → (s.write buf moved).pos = s.pos ∧
    (s.write buf moved).virtMem.load 0 s.pos = s.virtMem.load 0 s.pos
  reported : reported s.returns = s.pos

/-! ## One write -/

theorem write_fault {buf : List UInt8} {moved : ℕ} (s : LcdState) (h : moved < buf.length) :
    (s.write buf moved).pos = s.pos ∧
      (s.write buf moved).virtMem.load 0 s.pos = s.virtMem.load 0 s.pos := by
  rw [LcdState.write, if_pos h]
  exact ⟨rfl, load_store_below _ _ (le_refl _)⟩

theorem write_success {s : LcdState} {buf : List UInt8} (h : s.pos + buf.length ≤ pageSize) :
    (s.write buf buf.length).pos = s.pos + buf.length ∧
      (s.write buf buf.length).virtMem.load 0 (s.pos + buf.length) =
        s.virtMem.load 0 s.pos ++ buf := by
  have hpage : pageSize < 2 ^ 64 := by decide
  rw [LcdState.write, if_neg (lt_irrefl _), copyFromUser_self]
  exact ⟨Nat.mod_eq_of_lt (by omega), load_store_append _ _ _⟩

/-- Success or not, zero is returned. -/
theorem write_returns (s : LcdState) (buf : List UInt8) (moved : ℕ) :
    (s.write buf moved).returns = s.returns ++ [0] := by
  rw [LcdState.write]
  split <;> rfl

@[simp] theorem reported_snoc_zero (returns : List ℤ) : reported (returns ++ [0]) = reported returns := by
  simp [reported]

theorem successes_cons (w : WriteCall) (ws : List WriteCall) :
    successes (w :: ws) = successes [w] ++ successes ws := by
  rw [successes, successes, successes, ← List.map_append, ← List.filter_append,
    List.singleton_append]

/-- **One write**, successful or not. -/
theorem write_stored {s : LcdState} {w : WriteCall} (hmoved : w.moved ≤ w.buf.length)
    (hfit : s.pos + w.buf.length ≤ pageSize) :
    (s.write w.buf w.moved).pos = s.pos + (successes [w]).flatten.length ∧
      (s.write w.buf w.moved).virtMem.load 0 (s.write w.buf w.moved).pos =
        s.virtMem.load 0 s.pos ++ (successes [w]).flatten ∧
      (successes [w]).flatten.length ≤ w.buf.length := by
  rcases Nat.lt_or_ge w.moved w.buf.length with hfault | hall
  · have hnone : successes [w] = [] := by simp [successes, hfault]
    obtain ⟨hpos, hmem⟩ := write_fault s hfault
    rw [hnone, hpos]
    exact ⟨rfl, by simpa using hmem, Nat.zero_le _⟩
  · have hone : (successes [w]).flatten = w.buf := by simp [successes, hall]
    rw [hone, le_antisymm hmoved hall]
    obtain ⟨hpos, hmem⟩ := write_success hfit
    rw [hpos]
    exact ⟨rfl, hmem, le_refl _⟩

/-! ## Any number of writes -/

/-- **What a run of writes leaves.** -/
theorem exec_writes {ws : List WriteCall} {s t : LcdState} (hfit : s.pos + totalLength ws ≤ pageSize)
    (hex : lcdDrv.exec s (ws.map WriteCall.action) = some t) :
    t.pos = s.pos + (successes ws).flatten.length ∧
      t.virtMem.load 0 t.pos = s.virtMem.load 0 s.pos ++ (successes ws).flatten ∧
      reported t.returns = reported s.returns := by
  induction ws generalizing s with
  | nil =>
      obtain rfl : s = t := by simpa using hex
      simp [successes]
  | cons w ws ih =>
      obtain ⟨u, hstep, hrest⟩ := (lcdDrv.exec_cons_eq_some).mp hex
      obtain ⟨hmoved, rfl⟩ := Machine.when_eq_some.mp hstep
      rw [totalLength, List.map_cons, List.sum_cons, ← totalLength] at hfit
      have hroom : s.pos + w.buf.length ≤ pageSize := by omega
      obtain ⟨hpos, hmem, hle⟩ := write_stored hmoved hroom
      obtain ⟨ihpos, ihmem, ihrep⟩ := ih (by omega) hrest
      rw [write_returns, reported_snoc_zero] at ihrep
      rw [hmem] at ihmem
      rw [hpos] at ihpos
      rw [successes_cons, List.flatten_append, List.length_append, ← Nat.add_assoc,
        ← List.append_assoc]
      exact ⟨ihpos, ihmem, ihrep⟩

/-- **Byte accounting, exactly.**  After any sequence of writes that fit, with any outcomes, memory,
position and return values agree if and only if no write of one byte or more succeeded. -/
theorem accounted_iff {ws : List WriteCall} {s : LcdState} (hfit : totalLength ws ≤ pageSize)
    (hex : lcdDrv.exec lcdDrv.init (ws.map WriteCall.action) = some s) :
    Accounted ws s ↔ ∀ buf ∈ successes ws, buf = [] := by
  have hstart : lcdDrv.init.pos + totalLength ws ≤ pageSize := by
    rw [show lcdDrv.init.pos = 0 from rfl, Nat.zero_add]
    exact hfit
  obtain ⟨hpos, hmem, hrep⟩ := exec_writes hstart hex
  rw [show lcdDrv.init.pos = 0 from rfl, Nat.zero_add] at hpos
  have hzero : reported s.returns = 0 := hrep
  rw [← List.flatten_eq_nil_iff]
  constructor
  · intro h
    have hnone : s.pos = 0 := by
      have hagree := h.reported
      rw [hzero] at hagree
      exact_mod_cast hagree.symm
    rw [← List.length_eq_zero_iff, ← hpos, hnone]
  · intro hnil
    have hnone : s.pos = 0 := by rw [hpos, hnil, List.length_nil]
    refine ⟨hmem, hpos, fun buf moved => write_fault s, ?_⟩
    rw [hzero, hnone]
    rfl

/-- One write that is stopped by a fault. -/
theorem faulted_write_accounted :
    ∃ s, lcdDrv.exec lcdDrv.init [.write [7, 8] 1] = some s ∧ Accounted [⟨[7, 8], 1⟩] s := by
  refine ⟨_, rfl, ?_⟩
  exact (accounted_iff (by decide) rfl).mpr (by decide)

/-- A write of one byte is stored and not reported. -/
theorem stored_byte_not_reported : ∃ s, lcdDrv.exec lcdDrv.init [.write [7] 1] = some s ∧
    s.pos = 1 ∧ ¬ Accounted [⟨[7], 1⟩] s := by
  refine ⟨_, rfl, rfl, fun h => ?_⟩
  exact absurd h.reported (by decide)

/-- **A caller that repeats a write** because nothing of it is reported stores its data once more
each time. -/
theorem retry_stores_copies {buf : List UInt8} {k : ℕ} {s : LcdState}
    (hfit : k * buf.length ≤ pageSize)
    (hex : lcdDrv.exec lcdDrv.init
      ((List.replicate k ⟨buf, buf.length⟩).map WriteCall.action) = some s) :
    s.virtMem.load 0 s.pos = (List.replicate k buf).flatten ∧ reported s.returns = 0 := by
  have hsucc : successes (List.replicate k ⟨buf, buf.length⟩) = List.replicate k buf := by
    simp [successes]
  have htotal : lcdDrv.init.pos + totalLength (List.replicate k ⟨buf, buf.length⟩) ≤ pageSize := by
    rw [show lcdDrv.init.pos = 0 from rfl, totalLength, List.map_replicate, List.sum_replicate]
    simpa using hfit
  obtain ⟨-, hmem, hrep⟩ := exec_writes htotal hex
  rw [hsucc] at hmem
  exact ⟨hmem, hrep⟩

end CourseDesign.Drivers
