import CourseDesign.Lib.Mcs51
import CourseDesign.Lib.RestoringDivision

/-!
# The division in assembly language

`osalMcuDivide31By16To16`, by which `osalTimeUpdate` turns the ticks of the radio timer into
milliseconds.

* `osalMcuDivide31By16To16` — the instructions of `OSAL_Math.s51`.
* `osalMcuDivide_correct` — what the routine returns, and what it leaves as it was.
-/

namespace CourseDesign.Osal

open Mcs51 RestoringDivision

/-! ## The routine -/

/-- The bytes of the segment `DATA_Z`, and the stack pointer `?XSP`. -/
abbrev savedR6 : Loc := .data 0
abbrev savedR7 : Loc := .data 1
abbrev savedRemHi : Loc := .data 2
abbrev savedRemLow : Loc := .data 3
abbrev savedDPH : Loc := .data 4
abbrev savedDPL : Loc := .data 5
abbrev xspLow : Loc := .data 6
abbrev xspHigh : Loc := .data 7

/-- The registers and the pointer are saved, and the divisor is fetched. -/
def fetchDivisor : List Instr :=
  [.movImm .b 16, .mov savedR6 (.r 6), .mov savedR7 (.r 7), .mov savedDPL .dpl, .mov savedDPH .dph,
    .mov .dpl xspLow, .mov .dph xspHigh, .movx, .xch (.r 6), .incDptr, .movx, .xch (.r 7),
    .mov .dpl savedDPL, .mov .dph savedDPH]

/-- The dividend is moved to `R3:R2` and `R1:R0`. -/
def moveDividend : List Instr :=
  [.mov .a (.r 3), .xch (.r 1), .mov .a (.r 2), .xch (.r 0), .mov .a (.r 5), .xch (.r 3),
    .mov .a (.r 4), .xch (.r 2)]

/-- Step 1: shift dividend and remainder left. -/
def shiftDividend : List Instr :=
  [.clrC, .mov .a (.r 0), .rlc, .xch (.r 0), .mov .a (.r 1), .rlc, .xch (.r 1), .mov .a (.r 2),
    .rlc, .xch (.r 2), .mov .a (.r 3), .rlc, .xch (.r 3)]

/-- Step 2: subtract divisor from remainder; and the complement of the borrow. -/
def subtractDivisor : List Instr :=
  [.clrC, .mov .a (.r 2), .subb (.r 6), .mov savedRemLow .a, .mov .a (.r 3), .subb (.r 7),
    .mov savedRemHi .a, .cplC]

/-- There was no borrow: the remainder becomes the difference. -/
def takeDifference : List Instr := [.mov (.r 3) savedRemHi, .mov (.r 2) savedRemLow]

/-- Step 3: shift quotient left. -/
def shiftQuotient : List Instr :=
  [.mov .a (.r 4), .rlc, .xch (.r 4), .mov .a (.r 5), .rlc, .xch (.r 5)]

/-- `TopOfLoop`. -/
def topOfLoop : ℕ := 22

/-- The label `ShiftQuotient`. -/
def shiftQuotientLabel : ℕ := 46

/-- `osalMcuDivide31By16To16`. -/
def osalMcuDivide31By16To16 : List Instr :=
  fetchDivisor ++ moveDividend ++ shiftDividend ++ subtractDivisor ++ [.jnc shiftQuotientLabel] ++
    takeDifference ++ shiftQuotient ++ [.djnz .b topOfLoop] ++
    [.mov (.r 6) savedR6, .mov (.r 7) savedR7, .ret]

/-! ## Its parts -/

/-- The number in two bytes. -/
def word (s : State) (lo hi : Loc) : ℕ := (s.byte lo).toNat + 256 * (s.byte hi).toNat

section Blocks

variable {s : State}

theorem word_lt (s : State) (lo hi : Loc) : word s lo hi < 65536 := by
  have hlo := (s.byte lo).isLt
  have hhi := (s.byte hi).isLt
  rw [word]
  omega

theorem shiftDividend_words (s : State) :
    word (effects shiftDividend s) (.r 0) (.r 1) +
        65536 * (word (effects shiftDividend s) (.r 2) (.r 3) +
          65536 * (effects shiftDividend s).carry.toNat) =
      2 * (word s (.r 0) (.r 1) + 65536 * word s (.r 2) (.r 3)) := by
  have h0 := rotated_spec (s.byte (.r 0)) false
  have h1 := rotated_spec (s.byte (.r 1)) (rotated (s.byte (.r 0)) false).2
  have h2 := rotated_spec (s.byte (.r 2))
    (rotated (s.byte (.r 1)) (rotated (s.byte (.r 0)) false).2).2
  have h3 := rotated_spec (s.byte (.r 3))
    (rotated (s.byte (.r 2)) (rotated (s.byte (.r 1)) (rotated (s.byte (.r 0)) false).2).2).2
  rw [Bool.toNat_false, Nat.add_zero] at h0
  simp [effects, shiftDividend, Instr.effect, State.set, word]
  omega

theorem shiftDividend_of_ne (s : State) {l : Loc} (hl : l ∉ [Loc.a, .r 0, .r 1, .r 2, .r 3]) :
    (effects shiftDividend s).byte l = s.byte l := by
  simp only [List.mem_cons, List.not_mem_nil, or_false, not_or] at hl
  simp [effects, shiftDividend, Instr.effect, State.set, hl]

theorem subtractDivisor_words (s : State) :
    word (effects subtractDivisor s) savedRemLow savedRemHi + word s (.r 6) (.r 7) =
      word s (.r 2) (.r 3) + 65536 * (!(effects subtractDivisor s).carry).toNat := by
  have hlow := subtracted_spec (s.byte (.r 2)) (s.byte (.r 6)) false
  have hhigh := subtracted_spec (s.byte (.r 3)) (s.byte (.r 7))
    (subtracted (s.byte (.r 2)) (s.byte (.r 6)) false).2
  rw [Bool.toNat_false, Nat.add_zero] at hlow
  simp [effects, subtractDivisor, Instr.effect, State.set, word]
  omega

theorem subtractDivisor_of_ne (s : State) {l : Loc}
    (hl : l ∉ [Loc.a, savedRemLow, savedRemHi]) :
    (effects subtractDivisor s).byte l = s.byte l := by
  simp only [List.mem_cons, List.not_mem_nil, or_false, not_or] at hl
  simp [effects, subtractDivisor, Instr.effect, State.set, hl]

theorem takeDifference_words (s : State) :
    word (effects takeDifference s) (.r 2) (.r 3) = word s savedRemLow savedRemHi := by
  simp [effects, takeDifference, Instr.effect, State.set, word]

theorem takeDifference_of_ne (s : State) {l : Loc} (hl : l ∉ [Loc.r 2, .r 3]) :
    (effects takeDifference s).byte l = s.byte l := by
  simp only [List.mem_cons, List.not_mem_nil, or_false, not_or] at hl
  simp [effects, takeDifference, Instr.effect, State.set, hl]

theorem shiftQuotient_words (s : State) :
    word (effects shiftQuotient s) (.r 4) (.r 5) + 65536 * (effects shiftQuotient s).carry.toNat =
      2 * word s (.r 4) (.r 5) + s.carry.toNat := by
  have hlow := rotated_spec (s.byte (.r 4)) s.carry
  have hhigh := rotated_spec (s.byte (.r 5)) (rotated (s.byte (.r 4)) s.carry).2
  simp [effects, shiftQuotient, Instr.effect, State.set, word]
  omega

theorem shiftQuotient_of_ne (s : State) {l : Loc} (hl : l ∉ [Loc.a, .r 4, .r 5]) :
    (effects shiftQuotient s).byte l = s.byte l := by
  simp only [List.mem_cons, List.not_mem_nil, or_false, not_or] at hl
  simp [effects, shiftQuotient, Instr.effect, State.set, hl]

end Blocks

/-! ## The loop -/

/-- The registers hold the numbers of the division. -/
structure Divides (d : ℕ) (v : DivState) (s : State) : Prop where
  rem : word s (.r 2) (.r 3) = v.rem
  low : word s (.r 0) (.r 1) = v.low
  quo : word s (.r 4) (.r 5) = v.quo
  divisor : word s (.r 6) (.r 7) = d

/-- What the body of the loop writes. -/
def loopBytes : List Loc := [.a, .r 0, .r 1, .r 2, .r 3, .r 4, .r 5, savedRemLow, savedRemHi]

section Loop

variable {d : ℕ} {v : DivState} {s t : State} {lo hi : Loc}

theorem word_congr (hlo : t.byte lo = s.byte lo) (hhi : t.byte hi = s.byte hi) :
    word t lo hi = word s lo hi := by
  rw [word, word, hlo, hhi]

/-- Steps 1 and 2: the dividend is shifted, and the carry flag says whether the divisor fits. -/
theorem compare_words (h : Divides d v s) (hrem : v.rem < d) (hd : d ≤ 2 ^ 15)
    (ht : effects subtractDivisor (effects shiftDividend s) = t) :
    word t (.r 2) (.r 3) = v.shifted (2 ^ 16) ∧ word t (.r 0) (.r 1) = 2 * v.low % 2 ^ 16 ∧
      word t (.r 4) (.r 5) = v.quo ∧ (t.carry = true ↔ d ≤ v.shifted (2 ^ 16)) ∧
      (t.carry = true → word t savedRemLow savedRemHi = v.shifted (2 ^ 16) - d) := by
  have hbound : v.low < 65536 := h.low ▸ word_lt s (.r 0) (.r 1)
  have hshift := shiftDividend_words s
  have hlow := word_lt (effects shiftDividend s) (.r 0) (.r 1)
  have hhigh := word_lt (effects shiftDividend s) (.r 2) (.r 3)
  have hsub := subtractDivisor_words (effects shiftDividend s)
  have hdiff := word_lt (effects subtractDivisor (effects shiftDividend s)) savedRemLow savedRemHi
  have hdivisor : word (effects shiftDividend s) (.r 6) (.r 7) = d := by
    rw [word_congr (shiftDividend_of_ne s (by decide)) (shiftDividend_of_ne s (by decide)),
      h.divisor]
  have hquo : word t (.r 4) (.r 5) = v.quo := by
    rw [← ht, word_congr (subtractDivisor_of_ne _ (by decide))
        (subtractDivisor_of_ne _ (by decide)),
      word_congr (shiftDividend_of_ne s (by decide)) (shiftDividend_of_ne s (by decide)), h.quo]
  have hsame : word t (.r 2) (.r 3) = word (effects shiftDividend s) (.r 2) (.r 3) := by
    rw [← ht, word_congr (subtractDivisor_of_ne _ (by decide))
      (subtractDivisor_of_ne _ (by decide))]
  have hrest : word t (.r 0) (.r 1) = word (effects shiftDividend s) (.r 0) (.r 1) := by
    rw [← ht, word_congr (subtractDivisor_of_ne _ (by decide))
      (subtractDivisor_of_ne _ (by decide))]
  rw [h.rem, h.low] at hshift
  rw [hdivisor, ht] at hsub
  rw [ht] at hdiff
  rw [hsame, hrest, DivState.shifted]
  refine ⟨by omega, by omega, hquo, ?_, ?_⟩
  · cases hc : t.carry with
    | true =>
        rw [hc, Bool.not_true, Bool.toNat_false] at hsub
        simp only [true_iff]
        omega
    | false =>
        rw [hc, Bool.not_false, Bool.toNat_true] at hsub
        simp only [Bool.false_eq_true, false_iff]
        omega
  · intro hc
    rw [hc, Bool.not_true, Bool.toNat_false] at hsub
    omega

theorem compare_of_ne (s : State) {l : Loc} (hl : l ∉ loopBytes) :
    (effects subtractDivisor (effects shiftDividend s)).byte l = s.byte l := by
  rw [subtractDivisor_of_ne, shiftDividend_of_ne]
  · exact fun h => hl (by simp only [loopBytes, List.mem_cons] at h ⊢; tauto)
  · exact fun h => hl (by simp only [loopBytes, List.mem_cons] at h ⊢; tauto)

/-- Step 3: the bit of the quotient. -/
theorem quotient_words (h : word s (.r 4) (.r 5) = v.quo)
    (hcarry : s.carry = true ↔ d ≤ v.shifted (2 ^ 16)) :
    word (effects shiftQuotient s) (.r 4) (.r 5) = (divStep (2 ^ 16) d v).quo := by
  have hshift := shiftQuotient_words s
  have hlt := word_lt (effects shiftQuotient s) (.r 4) (.r 5)
  rw [h] at hshift
  cases hc : s.carry with
  | true =>
      rw [hc, Bool.toNat_true] at hshift
      simp only [divStep, if_pos (hcarry.mp hc)]
      omega
  | false =>
      rw [hc, Bool.toNat_false] at hshift
      simp only [divStep, if_neg fun hle => Bool.false_ne_true (hc ▸ hcarry.mpr hle)]
      omega

/-- **One bit is divided.** -/
theorem body_leads (h : Divides d v s) (hrem : v.rem < d) (hd : d ≤ 2 ^ 15) : ∃ t,
    Leads osalMcuDivide31By16To16 30 (topOfLoop, s) (52, t) ∧ Divides d (divStep (2 ^ 16) d v) t ∧
      ∀ l ∉ loopBytes, t.byte l = s.byte l := by
  obtain ⟨u, hu⟩ : ∃ u, effects subtractDivisor (effects shiftDividend s) = u := ⟨_, rfl⟩
  obtain ⟨hrem', hlow', hquo', hcarry, hdiff⟩ := compare_words h hrem hd hu
  have hkept : ∀ l ∉ loopBytes, u.byte l = s.byte l := fun l hl => hu ▸ compare_of_ne s hl
  have hcompare : Leads osalMcuDivide31By16To16 21 (topOfLoop, s) (43, u) := by
    have hcode : osalMcuDivide31By16To16.drop topOfLoop =
        (shiftDividend ++ subtractDivisor) ++ osalMcuDivide31By16To16.drop 43 := rfl
    have hrun := run_block (s := s) hcode rfl
    rw [effects, List.foldl_append] at hrun
    rw [← hu]
    exact ⟨21, Nat.le_refl _, hrun⟩
  have hquotient : ∀ w, Leads osalMcuDivide31By16To16 6 (shiftQuotientLabel, w)
      (52, effects shiftQuotient w) := by
    intro w
    have hcode : osalMcuDivide31By16To16.drop shiftQuotientLabel =
        shiftQuotient ++ osalMcuDivide31By16To16.drop 52 := rfl
    exact Leads.block shiftQuotient hcode rfl
  have hdivisor : ∀ w : State, (∀ l ∉ loopBytes, w.byte l = s.byte l) →
      word w (.r 6) (.r 7) = d := fun w hw => by
    rw [word_congr (hw _ (by decide)) (hw _ (by decide)), h.divisor]
  have hsame : ∀ w : State, ∀ l ∉ loopBytes, (effects shiftQuotient w).byte l = w.byte l :=
    fun w l hl => shiftQuotient_of_ne w fun h =>
      hl (by simp only [loopBytes, List.mem_cons] at h ⊢; tauto)
  cases hc : u.carry with
  | false =>
      -- The divisor does not fit, and the remainder stays.
      have hle : ¬ d ≤ v.shifted (2 ^ 16) := fun hle => Bool.false_ne_true (hc ▸ hcarry.mpr hle)
      have hjump : step osalMcuDivide31By16To16 (43, u) = some (shiftQuotientLabel, u) := by
        have hcode : osalMcuDivide31By16To16[43]? = some (.jnc shiftQuotientLabel) := rfl
        simp only [step, hcode, hc, Bool.false_eq_true, if_false]
      have hall : ∀ l ∉ loopBytes, (effects shiftQuotient u).byte l = s.byte l :=
        fun l hl => (hsame u l hl).trans (hkept l hl)
      refine ⟨effects shiftQuotient u, ((hcompare.trans (Leads.step hjump)).trans
        (hquotient u)).mono (by decide),
        ⟨?_, ?_, quotient_words hquo' hcarry, hdivisor _ hall⟩, hall⟩
      · rw [word_congr (shiftQuotient_of_ne u (by decide)) (shiftQuotient_of_ne u (by decide)),
          hrem', divStep, if_neg hle]
      · rw [word_congr (shiftQuotient_of_ne u (by decide)) (shiftQuotient_of_ne u (by decide)),
          hlow', divStep]
  | true =>
      have hle : d ≤ v.shifted (2 ^ 16) := hcarry.mp hc
      have hjump : step osalMcuDivide31By16To16 (43, u) = some (44, u) := by
        have hcode : osalMcuDivide31By16To16[43]? = some (.jnc shiftQuotientLabel) := rfl
        simp only [step, hcode, hc, if_true]
      obtain ⟨w, hw⟩ : ∃ w, effects takeDifference u = w := ⟨_, rfl⟩
      have htake : Leads osalMcuDivide31By16To16 2 (44, u) (shiftQuotientLabel, w) := by
        have hcode : osalMcuDivide31By16To16.drop 44 =
            takeDifference ++ osalMcuDivide31By16To16.drop shiftQuotientLabel := rfl
        rw [← hw]
        exact Leads.block takeDifference hcode rfl
      have hwu : ∀ l, l ∉ [Loc.r 2, .r 3] → w.byte l = u.byte l :=
        fun l hl => hw ▸ takeDifference_of_ne u hl
      have hwc : w.carry = u.carry := by
        rw [← hw]
        rfl
      have hall : ∀ l ∉ loopBytes, (effects shiftQuotient w).byte l = s.byte l := by
        intro l hl
        rw [hsame w l hl, hwu l fun h => hl (by simp only [loopBytes, List.mem_cons] at h ⊢; tauto),
          hkept l hl]
      have hquo'' : word w (.r 4) (.r 5) = v.quo := by
        rw [word_congr (hwu _ (by decide)) (hwu _ (by decide)), hquo']
      refine ⟨effects shiftQuotient w, (((hcompare.trans (Leads.step hjump)).trans htake).trans
        (hquotient w)).mono (by decide),
        ⟨?_, ?_, quotient_words hquo'' (hwc ▸ hcarry), hdivisor _ hall⟩, hall⟩
      · rw [word_congr (shiftQuotient_of_ne w (by decide)) (shiftQuotient_of_ne w (by decide)),
          ← hw, takeDifference_words, hdiff hc, divStep, if_pos hle]
      · rw [word_congr (shiftQuotient_of_ne w (by decide)) (shiftQuotient_of_ne w (by decide)),
          word_congr (hwu _ (by decide)) (hwu _ (by decide)), hlow', divStep]

/-- The end of the loop: the counter goes down, and the loop is over when it is 0. -/
theorem djnz_step (s : State) : step osalMcuDivide31By16To16 (52, s) =
    some (if s.byte .b - 1 ≠ 0 then topOfLoop else 53, s.set .b (s.byte .b - 1)) := by
  have hcode : osalMcuDivide31By16To16[52]? = some (.djnz .b topOfLoop) := rfl
  simp only [step, hcode, State.set_self]

theorem divides_set (h : Divides d v s) (x : BitVec 8) : Divides d v (s.set .b x) := by
  have hsame : ∀ l, l ≠ .b → (s.set .b x).byte l = s.byte l :=
    fun l hl => s.set_of_ne x hl
  constructor
  · rw [word_congr (hsame _ (by decide)) (hsame _ (by decide)), h.rem]
  · rw [word_congr (hsame _ (by decide)) (hsame _ (by decide)), h.low]
  · rw [word_congr (hsame _ (by decide)) (hsame _ (by decide)), h.quo]
  · rw [word_congr (hsame _ (by decide)) (hsame _ (by decide)), h.divisor]

/-- **The loop** divides as many bits as the counter says. -/
theorem loop_leads (n : ℕ) (h : Divides d v s) (hrem : v.rem < d) (hlow : v.low < 2 ^ 16)
    (hd : d ≤ 2 ^ 15) (hn : (s.byte .b).toNat = n + 1) : ∃ t,
    Leads osalMcuDivide31By16To16 (31 * (n + 1)) (topOfLoop, s) (53, t) ∧
      Divides d (divSteps (2 ^ 16) d (n + 1) v) t ∧
      ∀ l, l ≠ .b → l ∉ loopBytes → t.byte l = s.byte l := by
  induction n generalizing s v with
  | zero =>
      obtain ⟨t, hbody, hdiv, hkept⟩ := body_leads h hrem hd
      have hb : t.byte .b = 1 := by
        rw [hkept .b (by decide)]
        exact BitVec.eq_of_toNat_eq hn
      have hstep := djnz_step t
      rw [hb, if_neg (by decide)] at hstep
      refine ⟨_, (hbody.trans (Leads.step hstep)).mono (by decide), divides_set hdiv _, ?_⟩
      intro l hl hmem
      exact (State.set_of_ne _ _ hl).trans (hkept l hmem)
  | succ n ih =>
      obtain ⟨u, hbody, hdiv, hkept⟩ := body_leads h hrem hd
      have hb : (u.byte .b).toNat = n + 2 := by
        rw [hkept .b (by decide), hn]
      have hlt := (u.byte .b).isLt
      have hb' : (u.byte .b - 1).toNat = n + 1 := by
        rw [BitVec.toNat_sub, hb]
        simp only [BitVec.ofNat_eq_ofNat, BitVec.toNat_ofNat]
        omega
      have hne : u.byte .b - 1 ≠ 0 := by
        intro hzero
        rw [hzero] at hb'
        cases hb'
      have hstep := djnz_step u
      rw [if_pos hne] at hstep
      obtain ⟨hrem', hlow', -⟩ := divStep_spec hrem hlow
      have hcount : ((u.set .b (u.byte .b - 1)).byte .b).toNat = n + 1 := by
        rw [State.set_self, hb']
      obtain ⟨t, hloop, hdiv', hkept'⟩ := ih (divides_set hdiv _) hrem' hlow' hcount
      refine ⟨t, ((hbody.trans (Leads.step hstep)).trans hloop).mono (by omega), hdiv', ?_⟩
      intro l hl hmem
      rw [hkept' l hl hmem]
      exact (State.set_of_ne _ _ hl).trans (hkept l hmem)

end Loop

/-! ## The whole routine -/

/-- The dividend: `R5:R4:R3:R2`. -/
def dividend (s : State) : ℕ := word s (.r 2) (.r 3) + 2 ^ 16 * word s (.r 4) (.r 5)

/-- The divisor: two bytes of the stack in the external memory. -/
def divisor (s : State) : ℕ :=
  (s.xdata (word s xspLow xspHigh)).toNat +
    256 * (s.xdata ((word s xspLow xspHigh + 1) % 2 ^ 16)).toNat

/-- What the routine writes for good. -/
def scratchBytes : List Loc :=
  [.a, .b, .r 0, .r 1, .r 2, .r 3, .r 4, .r 5, savedR6, savedR7, savedRemHi, savedRemLow, savedDPH,
    savedDPL]

section Routine

variable {s : State}

/-- The registers at the top of the loop, for the first time. -/
theorem start_leads (s : State) : ∃ t,
    Leads osalMcuDivide31By16To16 22 (0, s) (topOfLoop, t) ∧
      Divides (divisor s) ⟨word s (.r 4) (.r 5), word s (.r 2) (.r 3), word s (.r 4) (.r 5)⟩ t ∧
      (t.byte .b).toNat = 16 ∧ t.byte savedR6 = s.byte (.r 6) ∧ t.byte savedR7 = s.byte (.r 7) ∧
      (∀ l ∉ scratchBytes, l ≠ .r 6 → l ≠ .r 7 → t.byte l = s.byte l) := by
  have hcode : osalMcuDivide31By16To16.drop 0 =
      (fetchDivisor ++ moveDividend) ++ osalMcuDivide31By16To16.drop topOfLoop := rfl
  refine ⟨_, ⟨22, Nat.le_refl _, run_block hcode rfl⟩, ⟨?_, ?_, ?_, ?_⟩, ?_, ?_, ?_, ?_⟩
  · simp [effects, fetchDivisor, moveDividend, Instr.effect, State.set, word]
  · simp [effects, fetchDivisor, moveDividend, Instr.effect, State.set, word]
  · simp [effects, fetchDivisor, moveDividend, Instr.effect, State.set, word]
  · have hwrap : ∀ n, n % 256 + 256 * (n / 256 % 256) = n % 65536 := by omega
    simp [effects, fetchDivisor, moveDividend, Instr.effect, State.set, word, divisor, State.dptr,
      hwrap]
  · simp [effects, fetchDivisor, moveDividend, Instr.effect, State.set]
  · simp [effects, fetchDivisor, moveDividend, Instr.effect, State.set]
  · simp [effects, fetchDivisor, moveDividend, Instr.effect, State.set]
  · intro l hl h6 h7
    simp only [scratchBytes, List.mem_cons, List.not_mem_nil, or_false, not_or] at hl
    by_cases hdpl : l = .dpl
    · subst hdpl
      simp [effects, fetchDivisor, moveDividend, Instr.effect, State.set]
    · by_cases hdph : l = .dph
      · subst hdph
        simp [effects, fetchDivisor, moveDividend, Instr.effect, State.set]
      · simp [effects, fetchDivisor, moveDividend, Instr.effect, State.set, hl, h6, h7, hdpl, hdph]

/-- `R6` and `R7` are restored. -/
theorem finish_leads (s : State) : ∃ t, Leads osalMcuDivide31By16To16 2 (53, s) (55, t) ∧
    t.byte (.r 6) = s.byte savedR6 ∧ t.byte (.r 7) = s.byte savedR7 ∧
      ∀ l, l ≠ .r 6 → l ≠ .r 7 → t.byte l = s.byte l := by
  have hcode : osalMcuDivide31By16To16.drop 53 =
      [.mov (.r 6) savedR6, .mov (.r 7) savedR7] ++ osalMcuDivide31By16To16.drop 55 := rfl
  refine ⟨_, ⟨2, Nat.le_refl _, run_block hcode rfl⟩, ?_, ?_, ?_⟩
  · simp [effects, Instr.effect, State.set]
  · simp [effects, Instr.effect, State.set]
  · intro l h6 h7
    simp [effects, Instr.effect, State.set, h6, h7]

/-- **The routine divides.**  If the divisor is at most half a word and the quotient fits in one,
the routine returns the quotient in `R5:R4` and the remainder in `R3:R2`, after 520 instructions at
the most; the other registers, the data pointer and the external memory are as they were. -/
theorem osalMcuDivide_correct (s : State) (hd : divisor s ≤ 2 ^ 15)
    (hquo : dividend s / 2 ^ 16 < divisor s) : ∃ t,
    Returns osalMcuDivide31By16To16 520 s t ∧ word t (.r 4) (.r 5) = dividend s / divisor s ∧
      word t (.r 2) (.r 3) = dividend s % divisor s ∧
      (∀ l ∉ scratchBytes, t.byte l = s.byte l) ∧ t.xdata = s.xdata := by
  have hhigh := word_lt s (.r 4) (.r 5)
  have hlow := word_lt s (.r 2) (.r 3)
  have hrem : word s (.r 4) (.r 5) < divisor s := by
    rw [dividend] at hquo
    omega
  obtain ⟨u, hstart, hdiv, hb, h6, h7, hkept⟩ := start_leads s
  obtain ⟨v, hloop, hdiv', hkept'⟩ := loop_leads 15 hdiv hrem hlow hd hb
  obtain ⟨t, hfinish, ht6, ht7, hkept''⟩ := finish_leads v
  have hreturn : Leads osalMcuDivide31By16To16 520 (0, s) (55, t) :=
    ((hstart.trans hloop).trans hfinish).mono (by decide)
  have hwords : ∀ lo hi, lo ≠ .r 6 → lo ≠ .r 7 → hi ≠ .r 6 → hi ≠ .r 7 →
      word t lo hi = word v lo hi :=
    fun lo hi hl6 hl7 hh6 hh7 => word_congr (hkept'' lo hl6 hl7) (hkept'' hi hh6 hh7)
  have hwhole : dividend s = word s (.r 4) (.r 5) * 2 ^ 16 + word s (.r 2) (.r 3) := by
    rw [dividend, Nat.add_comm, Nat.mul_comm]
  obtain ⟨hdivided, hmod⟩ := divSteps_eq (s := ⟨word s (.r 4) (.r 5), word s (.r 2) (.r 3),
    word s (.r 4) (.r 5)⟩) 16 hrem hlow
  refine ⟨t, ⟨55, hreturn, rfl⟩, ?_, ?_, ?_, hreturn.xdata⟩
  · rw [hwhole, ← hdivided, ← hdiv'.quo, hwords _ _ (by decide) (by decide) (by decide) (by decide)]
    exact (Nat.mod_eq_of_lt (word_lt v _ _)).symm
  · rw [hwhole, ← hmod, ← hdiv'.rem, hwords _ _ (by decide) (by decide) (by decide) (by decide)]
  · intro l hl
    by_cases hl6 : l = .r 6
    · rw [hl6, ht6, hkept' _ (by decide) (by decide), h6]
    · by_cases hl7 : l = .r 7
      · rw [hl7, ht7, hkept' _ (by decide) (by decide), h7]
      · have hb' : l ≠ .b := by
          rintro rfl
          exact hl (by decide)
        have hbody : l ∉ loopBytes :=
          fun h => hl (by simp only [loopBytes, scratchBytes, List.mem_cons] at h ⊢; tauto)
        rw [hkept'' l hl6 hl7, hkept' l hb' hbody, hkept l hl hl6 hl7]

/-- 1000 ticks of 320 µs by 25, with the divisor at the address 0x100. -/
def thousandTicks : State where
  byte l := if l = .r 2 then 0x40 else if l = .r 3 then 0x1F else if l = xspHigh then 1 else 0
  carry := false
  xdata n := if n = 0x100 then 25 else 0

theorem osalMcuDivide_correct_thousandticks : ∃ t,
    Returns osalMcuDivide31By16To16 520 thousandTicks t ∧
      word t (.r 4) (.r 5) = dividend thousandTicks / divisor thousandTicks ∧
      word t (.r 2) (.r 3) = dividend thousandTicks % divisor thousandTicks ∧
      (∀ l ∉ scratchBytes, t.byte l = thousandTicks.byte l) ∧ t.xdata = thousandTicks.xdata :=
  osalMcuDivide_correct thousandTicks (by decide) (by decide)

end Routine

end CourseDesign.Osal
