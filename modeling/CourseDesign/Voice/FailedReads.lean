import CourseDesign.Voice.TouchCtrl

/-!
# Failed reads of the touch thread

`thread_touch_ctrl` reports a `read` that fails and goes on with the round, on what is still in
`buf`.  Once something was read, that is an event already noted, or the zeros that `memset` left
after an action.

* `TouchCtrl.Settled` — noting what is in `buf` again changes nothing, and no touch is complete.
* `settled_round` — every round leaves it so.
* `failed_reads_harmless` — so a run does the same with its failed reads and without them.
-/

namespace CourseDesign.Voice

open CourseDesign.Drivers (InputEvent)

/-- `read` returned a positive length. -/
def TouchRead.succeeded : TouchRead → Bool
  | .event _ => true
  | .failed => false

/-- What the last round carried out. -/
def TouchCtrl.lastRound (s : TouchCtrl) : List TouchAct := s.rounds.getLast?.getD []

/-- What the next round carries out, each action with the x it is chosen by. -/
def nextActions (s : TouchCtrl) (a : TouchRead) : List (ℤ × TouchAct) :=
  ((touchCtrl.step s a).map fun t => t.lastRound.map fun act => (t.x, act)).getD []

/-- The thread before its first `read`, with what `x` happens to hold. -/
def started (x₀ : ℤ) : TouchCtrl := { touchCtrl.init with x := x₀ }

/-- The locals without the record of the rounds. -/
def TouchCtrl.locals (s : TouchCtrl) : TouchCtrl := { s with rounds := [] }

/-- What is in `buf` has been noted, and no touch is complete. -/
structure TouchCtrl.Settled (s : TouchCtrl) : Prop where
  noted : ∀ e, s.buf = some e → s.note e = s
  incomplete : s.flagTs ≠ 3

/-! ## One round -/

/-- Noting an event twice is noting it once. -/
theorem note_note (s : TouchCtrl) (e : InputEvent) : (s.note e).note e = s.note e := by
  have hagain : ∀ bit : ℕ, s.flagTs ||| bit ||| bit = s.flagTs ||| bit := by
    intro bit
    rw [Nat.or_assoc, Nat.or_self]
  simp only [TouchCtrl.note]
  by_cases hx : IsAbsX e
  · have hy := not_isAbsY hx
    simp only [hx, hy, if_true, if_false, hagain]
  · by_cases hy : IsAbsY e
    · simp only [hx, hy, if_true, if_false, hagain]
    · simp only [hx, hy, if_false]

/-- Noting an event looks neither at `buf` nor at the record. -/
theorem note_with (s : TouchCtrl) (e : InputEvent) (buf : Option InputEvent)
    (rounds : List (List TouchAct)) :
    ({ s with buf := buf, rounds := rounds }).note e =
      { s.note e with buf := buf, rounds := rounds } := by
  simp only [TouchCtrl.note]
  by_cases hx : IsAbsX e
  · simp [hx, not_isAbsY hx]
  · by_cases hy : IsAbsY e
    · simp [hx, hy]
    · simp [hx, hy]

/-- **Every round settles what it read**, whatever it did. -/
theorem settled_round (s : TouchCtrl) (e : InputEvent) : (s.round e).Settled := by
  by_cases hthree : (s.note e).flagTs = 3
  · simp only [TouchCtrl.round, if_pos hthree]
    refine ⟨fun e' he' => ?_, by simp⟩
    obtain rfl := Option.some.inj he'
    rfl
  · simp only [TouchCtrl.round, if_neg hthree]
    refine ⟨fun e' he' => ?_, hthree⟩
    obtain rfl := Option.some.inj he'
    rw [note_with, note_note]

/-- **A round on what is settled** only counts itself. -/
theorem round_of_settled {s : TouchCtrl} {e : InputEvent} (hs : s.Settled) (he : s.buf = some e) :
    s.round e = { s with rounds := s.rounds ++ [[]] } := by
  have hnote := hs.noted e he
  rw [TouchCtrl.round, hnote, if_neg hs.incomplete, ← he]

/-- A round adds one entry to the record. -/
theorem rounds_round (s : TouchCtrl) (e : InputEvent) :
    (s.round e).rounds = s.rounds ++ [(s.round e).lastRound] := by
  have hnote : (s.note e).rounds = s.rounds := by
    have hwith := congrArg TouchCtrl.rounds (note_with s e s.buf s.rounds)
    exact hwith
  simp only [TouchCtrl.lastRound, TouchCtrl.round]
  by_cases hthree : (s.note e).flagTs = 3
  · simp [hthree, hnote]
  · simp [hthree, hnote]

/-- The locals after a round, and what it did, depend on the locals only. -/
theorem round_of_locals {s t : TouchCtrl} (h : s.locals = t.locals) (e : InputEvent) :
    (s.round e).locals = (t.round e).locals ∧ (s.round e).lastRound = (t.round e).lastRound := by
  obtain ⟨buf, x, flagTs, mute, rounds⟩ := s
  obtain ⟨buf', x', flagTs', mute', rounds'⟩ := t
  obtain ⟨rfl, rfl, rfl, rfl, -⟩ := TouchCtrl.mk.inj h
  have hs := note_with ⟨buf, x, flagTs, mute, []⟩ e buf rounds
  have ht := note_with ⟨buf, x, flagTs, mute, []⟩ e buf rounds'
  simp only [TouchCtrl.round, hs, ht]
  by_cases hthree : (TouchCtrl.note ⟨buf, x, flagTs, mute, []⟩ e).flagTs = 3
  · simp [hthree, TouchCtrl.locals, TouchCtrl.lastRound]
  · simp [hthree, TouchCtrl.locals, TouchCtrl.lastRound]

/-! ## A run -/

/-- **The actions of a run** are those in the record of its rounds. -/
theorem rounds_exec {s t : TouchCtrl} {as : List TouchRead} (hex : touchCtrl.exec s as = some t) :
    t.rounds.flatten = s.rounds.flatten ++ (touchCtrl.trace nextActions s as).map Prod.snd := by
  have hlog : ∀ ⦃s a t⦄, touchCtrl.step s a = some t →
      t.rounds.flatten = s.rounds.flatten ++ (nextActions s a).map Prod.snd := by
    intro s a t hstep
    obtain ⟨e, rfl⟩ : ∃ e, s.round e = t := by
      cases a with
      | event e => exact ⟨e, Option.some.inj hstep⟩
      | failed =>
          obtain ⟨e, -, he⟩ := Option.map_eq_some_iff.mp hstep
          exact ⟨e, he⟩
    simp [nextActions, hstep, rounds_round s e, Function.comp_def]
  rw [Machine.map_trace]
  exact Machine.exec_log hlog hex

/-- The state with the failed reads is settled, and has the locals of the one without. -/
def SameBut (s t : TouchCtrl) : Prop := s.Settled ∧ s.locals = t.locals

/-- An event is taken alike. -/
theorem sameBut_event ⦃s t : TouchCtrl⦄ ⦃a : TouchRead⦄ ⦃s' : TouchCtrl⦄ (h : SameBut s t)
    (ha : a.succeeded = true) (hstep : touchCtrl.step s a = some s') :
    ∃ t', touchCtrl.step t a = some t' ∧ SameBut s' t' ∧ nextActions s a = nextActions t a := by
  cases a with
  | event e =>
      obtain rfl := Option.some.inj hstep
      obtain ⟨hlocals, hlast⟩ := round_of_locals h.2 e
      have hx : (s.round e).x = (t.round e).x := (TouchCtrl.mk.inj hlocals).2.1
      refine ⟨t.round e, rfl, ⟨settled_round s e, hlocals⟩, ?_⟩
      simp only [nextActions, touchCtrl, Option.map_some, Option.getD_some, hlast, hx]
  | failed => exact absurd ha (by decide)

/-- A failed read does nothing. -/
theorem sameBut_failed ⦃s t : TouchCtrl⦄ ⦃a : TouchRead⦄ ⦃s' : TouchCtrl⦄ (h : SameBut s t)
    (ha : a.succeeded = false) (hstep : touchCtrl.step s a = some s') :
    SameBut s' t ∧ nextActions s a = [] := by
  cases a with
  | event e => exact absurd ha (by simp [TouchRead.succeeded])
  | failed =>
      obtain ⟨e, hbuf, rfl⟩ := Option.map_eq_some_iff.mp hstep
      have hround := round_of_settled h.1 hbuf
      refine ⟨⟨settled_round s e, ?_⟩, ?_⟩
      · rw [hround, ← h.2]
        rfl
      · rw [nextActions, hstep, hround]
        simp [TouchCtrl.lastRound]

/-- Something is in `buf` after every round. -/
theorem buf_round (s : TouchCtrl) (e : InputEvent) : ∃ e', (s.round e).buf = some e' := by
  rw [TouchCtrl.round]
  split
  · exact ⟨_, rfl⟩
  · exact ⟨_, rfl⟩

/-- With something in `buf`, every `read` is followed by a round. -/
theorem exists_exec_of_buf (as : List TouchRead) {s : TouchCtrl} (h : ∃ e, s.buf = some e) :
    ∃ t, touchCtrl.exec s as = some t := by
  induction as generalizing s with
  | nil => exact ⟨s, rfl⟩
  | cons a as ih =>
      cases a with
      | event e =>
          obtain ⟨t, ht⟩ := ih (buf_round s e)
          exact ⟨t, (touchCtrl.exec_cons_eq_some).mpr ⟨s.round e, rfl, ht⟩⟩
      | failed =>
          obtain ⟨e, he⟩ := h
          obtain ⟨t, ht⟩ := ih (buf_round s e)
          have hstep : touchCtrl.step s .failed = some (s.round e) :=
            Option.map_eq_some_iff.mpr ⟨e, he, rfl⟩
          exact ⟨t, (touchCtrl.exec_cons_eq_some).mpr ⟨s.round e, hstep, ht⟩⟩

/-- **Failed reads are harmless.**  In every run that begins with an event, with failed reads
anywhere behind it, the thread carries out the same actions by the same x as in the run without the
failed reads, and ends with the same `flag_ts`, `x` and `mute`. -/
theorem failed_reads_harmless (x₀ : ℤ) (e : InputEvent) (as : List TouchRead) :
    ∃ s t, touchCtrl.exec (started x₀) (.event e :: as) = some s ∧
      touchCtrl.exec (started x₀) (.event e :: as.filter TouchRead.succeeded) = some t ∧
      touchCtrl.trace nextActions (started x₀) (.event e :: as) =
        touchCtrl.trace nextActions (started x₀) (.event e :: as.filter TouchRead.succeeded) ∧
      s.flagTs = t.flagTs ∧ s.x = t.x ∧ s.mute = t.mute := by
  have hstart : SameBut ((started x₀).round e) ((started x₀).round e) := ⟨settled_round _ e, rfl⟩
  obtain ⟨s, hs⟩ := exists_exec_of_buf as (buf_round (started x₀) e)
  obtain ⟨t, ht, ⟨-, hlocals⟩, htrace⟩ :=
    Machine.exec_filter sameBut_event sameBut_failed hstart hs
  obtain ⟨-, hx, hflag, hmute, -⟩ := TouchCtrl.mk.inj hlocals
  refine ⟨s, t, hs, ht, ?_, hflag, hx, hmute⟩
  rw [Machine.trace, Machine.trace]
  simp only [show touchCtrl.step (started x₀) (.event e) = some ((started x₀).round e) from rfl,
    Option.map_some, Option.getD_some, htrace]

end CourseDesign.Voice
