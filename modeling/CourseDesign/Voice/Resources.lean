import CourseDesign.Lib.Machine
import Mathlib.Data.Finset.Card

/-!
# Descriptors and heap blocks

What `send_file` and `lcd_draw_bmp` acquire and release, on each of their exit paths.  The outcomes
of `open` and `calloc` choose the path; those of `lseek`, `stat`, `read` and `send` only choose
lengths and bytes.

* `sendFile_of_opened` — every upload keeps its descriptor.
* `drawBmp_cases` — a picture that cannot be opened, or for which the second block is not there,
  keeps `pbmp_buf`.
* `count_exec` — how many descriptors and blocks a run of calls keeps.
* `unchanged_iff` — for which outcomes the two sets are what they were.
-/

namespace CourseDesign.Voice

/-- The open descriptors and the live heap blocks of the process. -/
@[ext] structure Resources where
  fds : Finset ℕ
  blocks : Finset ℕ
  deriving DecidableEq

namespace Resources

variable (r : Resources)

def «open» (fd : ℕ) : Resources := { r with fds := insert fd r.fds }

def close (fd : ℕ) : Resources := { r with fds := r.fds.erase fd }

def calloc (p : ℕ) : Resources := { r with blocks := insert p r.blocks }

def free (p : ℕ) : Resources := { r with blocks := r.blocks.erase p }

end Resources

/-- The outcomes of `open` and `calloc` in `send_file`. -/
structure SendFileCalls where
  fd : Option ℕ
  pcmBuf : Option ℕ
  deriving DecidableEq, Repr

/-- `send_file`; `free(NULL)` does nothing. -/
def sendFileCall (o : SendFileCalls) (r : Resources) : Resources :=
  match o.fd with
  | none => r
  | some fd =>
      let r := r.open fd
      match o.pcmBuf with
      | none => r
      | some pcmBuf => (r.calloc pcmBuf).free pcmBuf

/-- The outcomes of the first `calloc`, of `open` and of the second `calloc` in `lcd_draw_bmp`. -/
structure DrawBmpCalls where
  pbmpBuf : Option ℕ
  bmpFd : Option ℕ
  ptmpBuf : Option ℕ
  deriving DecidableEq, Repr

/-- `lcd_draw_bmp`. -/
def lcdDrawBmpCall (o : DrawBmpCalls) (r : Resources) : Resources :=
  match o.pbmpBuf with
  | none => r
  | some pbmpBuf =>
      let r := r.calloc pbmpBuf
      match o.bmpFd with
      | none => r
      | some bmpFd =>
          let r := r.open bmpFd
          match o.ptmpBuf with
          | none => r.close bmpFd
          | some ptmpBuf => (((r.calloc ptmpBuf).free pbmpBuf).free ptmpBuf).close bmpFd

/-- A call in a command round. -/
inductive RoundCall where
  | sendFile (o : SendFileCalls)
  | lcdDrawBmp (o : DrawBmpCalls)
  deriving DecidableEq, Repr

/-- `open` and `calloc` give what is not in use. -/
def RoundCall.Fresh (r : Resources) : RoundCall → Prop
  | .sendFile o => (∀ fd ∈ o.fd, fd ∉ r.fds) ∧ ∀ p ∈ o.pcmBuf, p ∉ r.blocks
  | .lcdDrawBmp o => (∀ p ∈ o.pbmpBuf, p ∉ r.blocks) ∧ (∀ fd ∈ o.bmpFd, fd ∉ r.fds) ∧
      ∀ p ∈ o.ptmpBuf, p ∉ r.blocks ∧ some p ≠ o.pbmpBuf

instance (r : Resources) : ∀ c : RoundCall, Decidable (c.Fresh r)
  | .sendFile _ => inferInstanceAs (Decidable (_ ∧ _))
  | .lcdDrawBmp _ => inferInstanceAs (Decidable (_ ∧ _ ∧ _))

/-- The calls of any number of rounds, one after another. -/
def rounds : Machine Resources RoundCall where
  init := { fds := ∅, blocks := ∅ }
  step r c := Machine.when (c.Fresh r)
    (match c with
      | .sendFile o => sendFileCall o r
      | .lcdDrawBmp o => lcdDrawBmpCall o r)

/-- The outcomes after which nothing is kept. -/
def RoundCall.Balanced : RoundCall → Prop
  | .sendFile o => o.fd = none
  | .lcdDrawBmp o => o.pbmpBuf = none ∨ o.bmpFd ≠ none ∧ o.ptmpBuf ≠ none

instance : ∀ c : RoundCall, Decidable c.Balanced
  | .sendFile _ => inferInstanceAs (Decidable (_ = _))
  | .lcdDrawBmp _ => inferInstanceAs (Decidable (_ ∨ _))

/-- The descriptors that a call keeps. -/
def RoundCall.keptFds : RoundCall → ℕ
  | .sendFile o => if o.fd = none then 0 else 1
  | .lcdDrawBmp _ => 0

/-- The blocks that a call keeps. -/
def RoundCall.keptBlocks : RoundCall → ℕ
  | .sendFile _ => 0
  | .lcdDrawBmp o => if RoundCall.Balanced (.lcdDrawBmp o) then 0 else 1

theorem balanced_iff (c : RoundCall) : c.Balanced ↔ c.keptFds = 0 ∧ c.keptBlocks = 0 := by
  cases c with
  | sendFile o => simp [RoundCall.Balanced, RoundCall.keptFds, RoundCall.keptBlocks]
  | lcdDrawBmp o => simp [RoundCall.keptFds, RoundCall.keptBlocks]

/-! ## Acquiring and releasing -/

variable {r : Resources}

theorem close_open {fd : ℕ} (h : fd ∉ r.fds) : (r.open fd).close fd = r :=
  Resources.ext (Finset.erase_insert h) rfl

theorem free_calloc {p : ℕ} (h : p ∉ r.blocks) : (r.calloc p).free p = r :=
  Resources.ext rfl (Finset.erase_insert h)

/-! ## One call -/

/-- **An upload** keeps the descriptor it opened, whatever happens afterwards. -/
theorem sendFile_eq {o : SendFileCalls} (h : RoundCall.Fresh r (.sendFile o)) :
    sendFileCall o r = match o.fd with
      | none => r
      | some fd => r.open fd := by
  obtain ⟨_ | fd, _ | pcmBuf⟩ := o
  · rfl
  · rfl
  · rfl
  · exact free_calloc (h.2 pcmBuf rfl)

/-- **A picture** that is drawn, or for which nothing was acquired, leaves everything as it was; any
other keeps `pbmp_buf`. -/
theorem lcdDrawBmp_eq {o : DrawBmpCalls} (h : RoundCall.Fresh r (.lcdDrawBmp o)) :
    lcdDrawBmpCall o r = match o.pbmpBuf with
      | none => r
      | some p => if o.bmpFd ≠ none ∧ o.ptmpBuf ≠ none then r else r.calloc p := by
  obtain ⟨_ | p, _ | fd, _ | q⟩ := o
  · rfl
  · rfl
  · rfl
  · rfl
  · rfl
  · rfl
  · exact close_open (r := r.calloc p) (h.2.1 fd rfl)
  · obtain ⟨hp, hfd, hq⟩ := h
    have hfresh := hp p rfl
    obtain ⟨hqfresh, hne⟩ := hq q rfl
    have hqp : q ≠ p := fun heq => hne (by rw [heq])
    refine Resources.ext (Finset.erase_insert (hfd fd rfl)) ?_
    show ((insert q (insert p r.blocks)).erase p).erase q = r.blocks
    rw [Finset.erase_insert_of_ne hqp, Finset.erase_insert hfresh, Finset.erase_insert hqfresh]

/-- A balanced call changes nothing. -/
theorem step_of_balanced {c : RoundCall} {t : Resources} (hc : c.Balanced)
    (hstep : rounds.step r c = some t) : t = r := by
  obtain ⟨hfresh, rfl⟩ := Machine.when_eq_some.mp hstep
  cases c with
  | sendFile o =>
      show sendFileCall o r = r
      rw [sendFile_eq hfresh, show o.fd = none from hc]
  | lcdDrawBmp o =>
      show lcdDrawBmpCall o r = r
      rw [lcdDrawBmp_eq hfresh]
      rcases hc with hnone | hboth
      · rw [hnone]
      · cases o.pbmpBuf with
        | none => rfl
        | some p => exact if_pos hboth

/-- What a call keeps, it keeps on top of what was there. -/
theorem card_step {c : RoundCall} {t : Resources} (hstep : rounds.step r c = some t) :
    t.fds.card = r.fds.card + c.keptFds ∧ t.blocks.card = r.blocks.card + c.keptBlocks := by
  by_cases hc : c.Balanced
  · obtain ⟨hfds, hblocks⟩ := (balanced_iff c).mp hc
    rw [step_of_balanced hc hstep, hfds, hblocks]
    exact ⟨rfl, rfl⟩
  · obtain ⟨hfresh, rfl⟩ := Machine.when_eq_some.mp hstep
    cases c with
    | sendFile o =>
        obtain ⟨fd, hfd⟩ := Option.ne_none_iff_exists'.mp hc
        have hnew : fd ∉ r.fds := hfresh.1 fd hfd
        simp only [sendFile_eq hfresh, hfd, RoundCall.keptFds, RoundCall.keptBlocks]
        exact ⟨Finset.card_insert_of_notMem hnew, rfl⟩
    | lcdDrawBmp o =>
        obtain ⟨hp, hrest⟩ := not_or.mp hc
        obtain ⟨p, hp⟩ := Option.ne_none_iff_exists'.mp hp
        have hnew : p ∉ r.blocks := hfresh.1 p hp
        simp only [lcdDrawBmp_eq hfresh, hp, RoundCall.keptFds, RoundCall.keptBlocks, if_neg hc,
          if_neg hrest]
        exact ⟨rfl, Finset.card_insert_of_notMem hnew⟩

/-! ## Any number of rounds -/

/-- **A run of calls keeps what its calls keep**, since no call releases what another acquired. -/
theorem count_exec {cs : List RoundCall} {t : Resources} (hex : rounds.exec r cs = some t) :
    t.fds.card = r.fds.card + (cs.map RoundCall.keptFds).sum ∧
      t.blocks.card = r.blocks.card + (cs.map RoundCall.keptBlocks).sum :=
  ⟨Machine.exec_measure (fun _ _ _ h => (card_step h).1) hex,
    Machine.exec_measure (fun _ _ _ h => (card_step h).2) hex⟩

/-- **Resource balance, exactly.**  From any state, after any number of calls of any kind with any
outcomes, the open descriptors and live blocks are those before if and only if in every `send_file`
the recording could not be opened, and in every `lcd_draw_bmp` the first `calloc` failed or both the
file was opened and the second `calloc` succeeded. -/
theorem unchanged_iff {cs : List RoundCall} {t : Resources} (hex : rounds.exec r cs = some t) :
    t = r ↔ ∀ c ∈ cs, c.Balanced := by
  constructor
  · rintro rfl c hc
    obtain ⟨hfds, hblocks⟩ := count_exec hex
    have hnofd : (cs.map RoundCall.keptFds).sum = 0 := by omega
    have hnoblock : (cs.map RoundCall.keptBlocks).sum = 0 := by omega
    exact (balanced_iff c).mpr
      ⟨List.sum_eq_zero_iff_forall_eq_nat.mp hnofd _ (List.mem_map_of_mem hc),
        List.sum_eq_zero_iff_forall_eq_nat.mp hnoblock _ (List.mem_map_of_mem hc)⟩
  · intro hall
    have hstay : rounds.Preserves (fun _ c => c.Balanced) fun u => u = r := by
      rintro s c u rfl hc hstep
      exact step_of_balanced hc hstep
    exact Machine.exec_of_preserves hstay rfl (Machine.along_of_forall hall r) hex

/-- A picture that is drawn, and a recording that is not there. -/
theorem drawn_picture_keeps_nothing : ∃ t, rounds.exec rounds.init
    [.lcdDrawBmp ⟨some 1, some 3, some 2⟩, .sendFile ⟨none, none⟩] = some t ∧ t = rounds.init := by
  have hrun : ∃ t, rounds.exec rounds.init
      [.lcdDrawBmp ⟨some 1, some 3, some 2⟩, .sendFile ⟨none, none⟩] = some t := ⟨_, rfl⟩
  obtain ⟨t, hex⟩ := hrun
  exact ⟨t, hex, (unchanged_iff hex).mpr (by decide)⟩

/-- One recording that is uploaded leaves its descriptor open, and one picture that is not there its
block. -/
theorem upload_keeps_descriptor :
    (∃ t, rounds.exec rounds.init [.sendFile ⟨some 3, some 1⟩] = some t ∧ t.fds = {3} ∧
      t ≠ rounds.init) ∧
    ∃ t, rounds.exec rounds.init [.lcdDrawBmp ⟨some 1, none, none⟩] = some t ∧ t.blocks = {1} ∧
      t ≠ rounds.init :=
  ⟨⟨_, rfl, rfl, by decide⟩, ⟨_, rfl, rfl, by decide⟩⟩

end CourseDesign.Voice
