import Mathlib.Data.BitVec
import Mathlib.Data.List.Basic
import Mathlib.Logic.Function.Basic
import Mathlib.Tactic.Common

/-!
# Some instructions of the 8051

The instructions that move bytes, shift and subtract them, and the conditional jumps.  Jumps lead to
a place of the program, counted in instructions.

* `step`, `run` — one instruction, and several.
* `rotated_spec`, `subtracted_spec` — what rotating and subtracting mean for the numbers.
* `run_block`, `Leads.block` — a stretch of a program without jumps.
* `Leads` — a program gets from one place and state to another in at most so many instructions.
-/

namespace Mcs51

/-- A byte that instructions name: the accumulator, the registers and the rest of the internal
memory. -/
inductive Loc where
  | a
  | b
  | dpl
  | dph
  | r (n : ℕ)
  | data (n : ℕ)
  deriving DecidableEq

inductive Instr where
  /-- `MOV dst,src` -/
  | mov (dst src : Loc)
  /-- `MOV dst,#v` -/
  | movImm (dst : Loc) (v : BitVec 8)
  /-- `XCH A,l` -/
  | xch (l : Loc)
  /-- `CLR C` -/
  | clrC
  /-- `CPL C` -/
  | cplC
  /-- `RLC A` -/
  | rlc
  /-- `SUBB A,l` -/
  | subb (l : Loc)
  /-- `MOVX A,@DPTR` -/
  | movx
  /-- `INC DPTR` -/
  | incDptr
  /-- `JNC target` -/
  | jnc (target : ℕ)
  /-- `DJNZ l,target` -/
  | djnz (l : Loc) (target : ℕ)
  /-- `RET` -/
  | ret

/-- The bytes, the carry flag and the external memory. -/
structure State where
  byte : Loc → BitVec 8
  carry : Bool
  xdata : ℕ → BitVec 8

def State.set (s : State) (l : Loc) (v : BitVec 8) : State :=
  { s with byte := Function.update s.byte l v }

theorem State.set_self (s : State) (l : Loc) (v : BitVec 8) : (s.set l v).byte l = v :=
  Function.update_self _ _ _

theorem State.set_of_ne (s : State) {l l' : Loc} (v : BitVec 8) (h : l' ≠ l) :
    (s.set l v).byte l' = s.byte l' :=
  Function.update_of_ne h _ _

/-- The data pointer. -/
def State.dptr (s : State) : ℕ := (s.byte .dpl).toNat + 256 * (s.byte .dph).toNat

/-- Rotating a byte to the left, through the carry flag. -/
def rotated (x : BitVec 8) (c : Bool) : BitVec 8 × Bool :=
  (BitVec.ofNat 8 (2 * x.toNat + c.toNat), decide (256 ≤ 2 * x.toNat + c.toNat))

/-- Subtracting a byte and the carry flag, which becomes the borrow. -/
def subtracted (x y : BitVec 8) (c : Bool) : BitVec 8 × Bool :=
  (BitVec.ofNat 8 (256 + x.toNat - (y.toNat + c.toNat)), decide (x.toNat < y.toNat + c.toNat))

/-- What an instruction does that is no jump. -/
def Instr.effect : Instr → State → State
  | .mov dst src, s => s.set dst (s.byte src)
  | .movImm dst v, s => s.set dst v
  | .xch l, s => (s.set .a (s.byte l)).set l (s.byte .a)
  | .clrC, s => { s with carry := false }
  | .cplC, s => { s with carry := !s.carry }
  | .rlc, s => { s.set .a (rotated (s.byte .a) s.carry).1 with
      carry := (rotated (s.byte .a) s.carry).2 }
  | .subb l, s => { s.set .a (subtracted (s.byte .a) (s.byte l) s.carry).1 with
      carry := (subtracted (s.byte .a) (s.byte l) s.carry).2 }
  | .movx, s => s.set .a (s.xdata s.dptr)
  | .incDptr, s => (s.set .dpl (BitVec.ofNat 8 (s.dptr + 1))).set .dph
      (BitVec.ofNat 8 ((s.dptr + 1) / 256))
  | .jnc _, s => s
  | .djnz _ _, s => s
  | .ret, s => s

/-- The instruction goes on to the next one. -/
def Instr.Straight : Instr → Bool
  | .jnc _ => false
  | .djnz _ _ => false
  | .ret => false
  | _ => true

/-- One instruction, at the place `pc`. -/
def step (code : List Instr) : ℕ × State → Option (ℕ × State)
  | (pc, s) =>
      match code[pc]? with
      | none => none
      | some .ret => none
      | some (.jnc target) => some (if s.carry then pc + 1 else target, s)
      | some (.djnz l target) =>
          let s := s.set l (s.byte l - 1)
          some (if s.byte l ≠ 0 then target else pc + 1, s)
      | some i => some (pc + 1, i.effect s)

/-- So many instructions. -/
def run (code : List Instr) : ℕ → ℕ × State → Option (ℕ × State)
  | 0, c => some c
  | n + 1, c => (step code c).bind (run code n)

/-! ## Numbers -/

theorem rotated_spec (x : BitVec 8) (c : Bool) :
    (rotated x c).1.toNat + 256 * (rotated x c).2.toNat = 2 * x.toNat + c.toNat := by
  have hx := x.isLt
  rw [rotated, BitVec.toNat_ofNat]
  cases c with
  | false =>
      by_cases h : 256 ≤ 2 * x.toNat
      · simp [h]
        omega
      · simp [h]
        omega
  | true =>
      by_cases h : 256 ≤ 2 * x.toNat + 1
      · simp [h]
        omega
      · simp [h]
        omega

theorem subtracted_spec (x y : BitVec 8) (c : Bool) :
    (subtracted x y c).1.toNat + (y.toNat + c.toNat) =
      x.toNat + 256 * (subtracted x y c).2.toNat := by
  have hx := x.isLt
  have hy := y.isLt
  rw [subtracted, BitVec.toNat_ofNat]
  cases c with
  | false =>
      by_cases h : x.toNat < y.toNat
      · simp [h]
        omega
      · simp [h]
        omega
  | true =>
      by_cases h : x.toNat < y.toNat + 1
      · simp [h]
        omega
      · simp [h]
        omega

/-! ## Runs -/

variable {code : List Instr} {m n pc : ℕ} {s : State} {c c' c'' : ℕ × State}

theorem run_add : run code (m + n) c = (run code m c).bind (run code n) := by
  induction m generalizing c with
  | zero => simp [run]
  | succ m ih =>
      rw [Nat.succ_add, run, run, Option.bind_assoc]
      congr 1
      funext c
      exact ih

/-- A stretch without jumps. -/
def effects (block : List Instr) (s : State) : State := block.foldl (fun s i => i.effect s) s

theorem step_straight {i : Instr} (hi : code[pc]? = some i) (hstraight : i.Straight = true) :
    step code (pc, s) = some (pc + 1, i.effect s) := by
  cases i with
  | jnc target => cases hstraight
  | djnz l target => cases hstraight
  | ret => cases hstraight
  | _ => simp only [step, hi]

/-- **A stretch without jumps** has all its effects, one after the other. -/
theorem run_block {block rest : List Instr} (hcode : code.drop pc = block ++ rest)
    (hstraight : block.all Instr.Straight = true) :
    run code block.length (pc, s) = some (pc + block.length, effects block s) := by
  induction block generalizing pc s with
  | nil => rfl
  | cons i block ih =>
      rw [List.all_cons, Bool.and_eq_true] at hstraight
      have hi : code[pc]? = some i := by
        rw [← List.head?_drop, hcode]
        rfl
      have hrest : code.drop (pc + 1) = block ++ rest := by
        rw [← List.drop_drop, hcode]
        rfl
      rw [List.length_cons, run, step_straight hi hstraight.1, Option.bind_some,
        ih hrest hstraight.2, Nat.add_right_comm, Nat.add_assoc]
      rfl

/-- The program gets from one place and state to another in at most so many instructions. -/
def Leads (code : List Instr) (n : ℕ) (c c' : ℕ × State) : Prop := ∃ m ≤ n, run code m c = some c'

theorem Leads.refl (c : ℕ × State) : Leads code 0 c c := ⟨0, Nat.le_refl _, rfl⟩

theorem Leads.trans (h : Leads code m c c') (h' : Leads code n c' c'') :
    Leads code (m + n) c c'' := by
  obtain ⟨i, hi, hrun⟩ := h
  obtain ⟨j, hj, hrun'⟩ := h'
  exact ⟨i + j, Nat.add_le_add hi hj, by rw [run_add, hrun, Option.bind_some, hrun']⟩

theorem Leads.mono (h : Leads code m c c') (hle : m ≤ n) : Leads code n c c' := by
  obtain ⟨i, hi, hrun⟩ := h
  exact ⟨i, hi.trans hle, hrun⟩

theorem Leads.step (h : Mcs51.step code c = some c') : Leads code 1 c c' :=
  ⟨1, Nat.le_refl _, by rw [run, h]; rfl⟩

theorem Leads.block {rest : List Instr} (block : List Instr) (hcode : code.drop pc = block ++ rest)
    (hstraight : block.all Instr.Straight = true) :
    Leads code block.length (pc, s) (pc + block.length, effects block s) :=
  ⟨block.length, Nat.le_refl _, run_block hcode hstraight⟩

theorem effect_xdata (i : Instr) (s : State) : (i.effect s).xdata = s.xdata := by
  cases i with
  | _ => rfl

theorem step_xdata (h : Mcs51.step code c = some c') : c'.2.xdata = c.2.xdata := by
  obtain ⟨pc, s⟩ := c
  simp only [Mcs51.step] at h
  split at h
  · cases h
  · cases h
  · obtain rfl := Option.some.inj h
    rfl
  · obtain rfl := Option.some.inj h
    rfl
  · obtain rfl := Option.some.inj h
    exact effect_xdata _ s

/-- None of the instructions writes to the external memory. -/
theorem Leads.xdata (h : Leads code n c c') : c'.2.xdata = c.2.xdata := by
  obtain ⟨m, -, hrun⟩ := h
  induction m generalizing c with
  | zero =>
      obtain rfl := Option.some.inj hrun
      rfl
  | succ m ih =>
      obtain ⟨b, hstep, hrest⟩ := Option.bind_eq_some_iff.mp hrun
      exact (ih hrest).trans (step_xdata hstep)

/-- The state in which a routine returns. -/
def Returns (code : List Instr) (n : ℕ) (s t : State) : Prop :=
  ∃ pc, Leads code n (0, s) (pc, t) ∧ code[pc]? = some .ret

/-- A routine is called, and runs for so many instructions at most. -/
def call (code : List Instr) : ℕ → ℕ × State → Option State
  | 0, _ => none
  | n + 1, (pc, s) =>
      match code[pc]? with
      | some .ret => some s
      | _ => (Mcs51.step code (pc, s)).bind (call code n)

theorem call_of_run {k : ℕ} {t : State} (h : run code m (pc, s) = some (n, t))
    (hret : code[n]? = some .ret) (hle : m < k) : call code k (pc, s) = some t := by
  induction m generalizing pc s k with
  | zero =>
      obtain ⟨k, rfl⟩ := Nat.exists_eq_add_of_lt hle
      obtain ⟨rfl, rfl⟩ := Prod.mk.inj (Option.some.inj h)
      simp only [call, hret]
  | succ m ih =>
      obtain ⟨k, rfl⟩ := Nat.exists_eq_add_of_lt hle
      obtain ⟨⟨pc', s'⟩, hstep, hrest⟩ := Option.bind_eq_some_iff.mp h
      have hne : code[pc]? ≠ some .ret := by
        intro hi
        simp [Mcs51.step, hi] at hstep
      rw [call]
      split
      next hi => exact absurd hi hne
      next =>
          rw [hstep, Option.bind_some]
          exact ih hrest (by omega)

/-- A routine that returns can be called. -/
theorem Returns.call {k : ℕ} {t : State} (h : Returns code n s t) (hle : n < k) :
    Mcs51.call code k (0, s) = some t := by
  obtain ⟨pc, ⟨m, hm, hrun⟩, hret⟩ := h
  exact call_of_run hrun hret (by omega)

end Mcs51
