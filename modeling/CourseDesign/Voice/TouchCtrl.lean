import CourseDesign.Lib.Machine
import CourseDesign.Drivers.InputEvent
import CourseDesign.Voice.TouchWait
import Mathlib.Data.List.Forall2

/-!
# The touch thread

`thread_touch_ctrl`: it reads events, notes in two bits of `flag_ts` whether an x and a y have come,
and when both have, nine `if`s choose what to do by the x.  The y is noted and nowhere used, since
`flag_ts & 0x01 == 0` is `flag_ts & 0`.

* `Arrived` — the abstract view: what has come since the last action.
* `round_complete`, `round_incomplete` — one round of the loop follows it.
* `answered_exec` — so in every run, each completed touch is answered with what the nine `if`s say
  about the most recent x, and every other event with nothing.
* `length_touched` — the `if`s cover every x once, except two.
* `served_iff` — every completed touch triggers exactly one action, for which runs.
-/

namespace CourseDesign.Voice

open CourseDesign.Drivers (InputEvent)

/-- What the thread does at a touch. -/
inductive TouchAct where
  | sendCmd (cmd : String)
  /-- `touch_flag = 1`. -/
  | touchFlag
  /-- `touch_voiceflag = 1`. -/
  | touchVoiceflag
  deriving DecidableEq, Repr

/-- `if(c) act`. -/
def ifThen (c : Prop) [Decidable c] (act : TouchAct) : List TouchAct := if c then [act] else []

/-- The nine `if`s, with the value of `mute` before. -/
def touched (mute : Bool) (x : ℤ) : List TouchAct :=
  ifThen (x < 100) (.sendCmd "pause\n") ++
  ifThen (x ≥ 100 ∧ x < 200) (.sendCmd "volume 10 1\n") ++
  ifThen (x ≥ 200 ∧ x < 300) (.sendCmd "volume 50 1\n") ++
  ifThen (x ≥ 300 ∧ x < 400) (.sendCmd "volume 100 1\n") ++
  ifThen (x ≥ 400 ∧ x < 500) (.sendCmd (if mute then "mute 0\n" else "mute 1\n")) ++
  ifThen (x ≥ 500 ∧ x < 600) (.sendCmd "seek -10\n") ++
  ifThen (x ≥ 600 ∧ x < 700) (.sendCmd "seek 10\n") ++
  ifThen (x > 700 ∧ x < 750) .touchFlag ++
  ifThen (x > 750) .touchVoiceflag

def IsAbsX (e : InputEvent) : Prop := e.type = 3 ∧ e.code = 0

def IsAbsY (e : InputEvent) : Prop := e.type = 3 ∧ e.code = 1

instance (e : InputEvent) : Decidable (IsAbsX e) := inferInstanceAs (Decidable (_ ∧ _))

instance (e : InputEvent) : Decidable (IsAbsY e) := inferInstanceAs (Decidable (_ ∧ _))

/-- The locals of the thread; `buf` is `none` until something was read.  `rounds` records what each
round of the loop did. -/
structure TouchCtrl where
  buf : Option InputEvent
  x : ℤ
  flagTs : ℕ
  mute : Bool
  rounds : List (List TouchAct)
  deriving DecidableEq, Repr

/-- What `read` gives. -/
inductive TouchRead where
  | event (e : InputEvent)
  /-- Nothing: `buf` keeps what it had. -/
  | failed
  deriving DecidableEq, Repr

/-- The two bits after an event. -/
def TouchCtrl.note (s : TouchCtrl) (e : InputEvent) : TouchCtrl :=
  let s' := if IsAbsX e then { s with x := e.value.toInt, flagTs := s.flagTs ||| 1 } else s
  if IsAbsY e then { s' with flagTs := s'.flagTs ||| 2 } else s'

/-- The rest of a round, with `e` in `buf`. -/
def TouchCtrl.round (s : TouchCtrl) (e : InputEvent) : TouchCtrl :=
  let s' := s.note e
  if s'.flagTs = 3 then
    { s' with
      buf := some ⟨0, 0, 0⟩
      flagTs := 0
      mute := if s'.x ≥ 400 ∧ s'.x < 500 then !s'.mute else s'.mute
      rounds := s'.rounds ++ [touched s'.mute s'.x] }
  else { s' with buf := some e, rounds := s'.rounds ++ [[]] }

/-- The thread; `x` has no value before the first x comes. -/
def touchCtrl : Machine TouchCtrl TouchRead where
  init := { buf := none, x := 0, flagTs := 0, mute := false, rounds := [] }
  step s
    | .event e => some (s.round e)
    | .failed => s.buf.map s.round

/-! ## What is expected -/

/-- What has come since the last action: the most recent x, and whether a y. -/
structure Arrived where
  x : Option ℤ
  y : Bool
  deriving DecidableEq, Repr

def Arrived.nothing : Arrived := { x := none, y := false }

def Arrived.event (p : Arrived) (e : InputEvent) : Arrived :=
  if IsAbsX e then { p with x := some e.value.toInt }
  else if IsAbsY e then { p with y := true }
  else p

/-- The touch, if both have come. -/
def Arrived.complete (p : Arrived) : Option ℤ := if p.y then p.x else none

/-- For each read, the x of the touch that it completes. -/
def expected : Arrived → List TouchRead → List (Option ℤ)
  | _, [] => []
  | p, .failed :: as => none :: expected p as
  | p, .event e :: as =>
      let p' := p.event e
      p'.complete :: expected (if p'.complete.isSome then .nothing else p') as

/-- The round does what the `if`s say about the x, if there is a touch, and nothing otherwise. -/
def Answered : Option ℤ → List TouchAct → Prop
  | none, acts => acts = []
  | some x, acts => ∃ mute, acts = touched mute x

/-- The round carries out exactly one action, chosen by the x, if there is a touch, and none
otherwise. -/
def Served : Option ℤ → List TouchAct → Prop
  | none, acts => acts = []
  | some x, acts => ∃ mute act, touched mute x = [act] ∧ acts = [act]

/-! ## One round -/

/-- The thread knows what has arrived. -/
structure Follows (s : TouchCtrl) (p : Arrived) : Prop where
  flag : s.flagTs = (if p.x.isSome then 1 else 0) + (if p.y then 2 else 0)
  x : ∀ v, p.x = some v → s.x = v
  incomplete : p.complete = none
  /-- What is left in `buf` has been noted. -/
  noted : ∀ e, s.buf = some e → p.event e = p

theorem not_isAbsY {e : InputEvent} (h : IsAbsX e) : ¬ IsAbsY e := by
  rintro ⟨-, hy⟩
  rw [h.2] at hy
  exact absurd hy (by decide)

theorem event_event (p : Arrived) (e : InputEvent) : (p.event e).event e = p.event e := by
  simp only [Arrived.event]
  by_cases hx : IsAbsX e
  · simp [hx]
  · by_cases hy : IsAbsY e <;> simp [hx, hy]

/-- Noting an event in the two bits. -/
theorem note_event {s : TouchCtrl} {p : Arrived} (h : Follows s p) (e : InputEvent) :
    (s.note e).flagTs = (if (p.event e).x.isSome then 1 else 0) + (if (p.event e).y then 2 else 0) ∧
      (∀ v, (p.event e).x = some v → (s.note e).x = v) ∧ (s.note e).mute = s.mute ∧
      (s.note e).rounds = s.rounds := by
  obtain ⟨hflag, hval, -, -⟩ := h
  obtain ⟨px, py⟩ := p
  simp only [TouchCtrl.note, Arrived.event]
  by_cases hx : IsAbsX e
  · rw [if_pos hx, if_neg (not_isAbsY hx), if_pos hx]
    refine ⟨?_, fun v hv => Option.some.inj hv, rfl, rfl⟩
    cases px <;> cases py <;> simp_all
  · rw [if_neg hx, if_neg hx]
    by_cases hy : IsAbsY e
    · rw [if_pos hy, if_pos hy]
      refine ⟨?_, hval, rfl, rfl⟩
      cases px <;> cases py <;> simp_all
    · rw [if_neg hy, if_neg hy]
      exact ⟨hflag, hval, rfl, rfl⟩

/-- Both bits are set exactly when both have come. -/
theorem complete_iff {s : TouchCtrl} {p : Arrived}
    (h : s.flagTs = (if p.x.isSome then 1 else 0) + (if p.y then 2 else 0)) :
    s.flagTs = 3 ↔ p.complete.isSome = true := by
  obtain ⟨px, py⟩ := p
  rw [h]
  cases px <;> cases py <;> simp [Arrived.complete]

/-- **A round that completes a touch** answers it and starts over. -/
theorem round_complete {s : TouchCtrl} {p : Arrived} {e : InputEvent} {x : ℤ} (h : Follows s p)
    (hx : (p.event e).complete = some x) :
    (s.round e).rounds = s.rounds ++ [touched s.mute x] ∧ Follows (s.round e) .nothing := by
  obtain ⟨hflag, hval, hmute, hrounds⟩ := note_event h e
  have hthree : (s.note e).flagTs = 3 := (complete_iff hflag).mpr (by rw [hx]; rfl)
  have hlast : (s.note e).x = x := by
    refine hval x ?_
    rw [← hx, Arrived.complete]
    by_cases hy : (p.event e).y = true
    · rw [if_pos hy]
    · rw [Arrived.complete, if_neg hy] at hx
      exact absurd hx (by simp)
  simp only [TouchCtrl.round, if_pos hthree, hmute, hrounds, hlast]
  refine ⟨trivial, rfl, fun v hv => absurd hv (by simp [Arrived.nothing]), rfl, fun e' he' => ?_⟩
  obtain rfl := Option.some.inj he'
  rfl

/-- **Any other round** does nothing but note what came. -/
theorem round_incomplete {s : TouchCtrl} {p : Arrived} {e : InputEvent} (h : Follows s p)
    (hx : (p.event e).complete = none) :
    (s.round e).rounds = s.rounds ++ [[]] ∧ Follows (s.round e) (p.event e) := by
  obtain ⟨hflag, hval, -, hrounds⟩ := note_event h e
  have hthree : ¬ (s.note e).flagTs = 3 := by
    rw [complete_iff hflag, hx]
    simp
  simp only [TouchCtrl.round, if_neg hthree, hrounds]
  refine ⟨trivial, hflag, hval, hx, fun e' he' => ?_⟩
  obtain rfl := Option.some.inj he'
  exact event_event p e

/-! ## A run -/

theorem answered_of_follows {as : List TouchRead} {s t : TouchCtrl} {p : Arrived} (h : Follows s p)
    (hex : touchCtrl.exec s as = some t) :
    ∃ rounds, t.rounds = s.rounds ++ rounds ∧ List.Forall₂ Answered (expected p as) rounds := by
  induction as generalizing s p with
  | nil =>
      obtain rfl : s = t := by simpa using hex
      exact ⟨[], by simp, .nil⟩
  | cons a as ih =>
      obtain ⟨u, hstep, hrest⟩ := (touchCtrl.exec_cons_eq_some).mp hex
      cases a with
      | event e =>
          obtain rfl := Option.some.inj hstep
          rw [expected]
          cases hx : (p.event e).complete with
          | none =>
              obtain ⟨hlog, hfollows⟩ := round_incomplete h hx
              obtain ⟨rounds, hrounds, hall⟩ := ih hfollows hrest
              refine ⟨[] :: rounds, by rw [hrounds, hlog, List.append_assoc]; rfl, .cons rfl ?_⟩
              simpa [hx] using hall
          | some x =>
              obtain ⟨hlog, hfollows⟩ := round_complete h hx
              obtain ⟨rounds, hrounds, hall⟩ := ih hfollows hrest
              refine ⟨touched s.mute x :: rounds, by rw [hrounds, hlog, List.append_assoc]; rfl,
                .cons ⟨s.mute, rfl⟩ ?_⟩
              simpa [hx] using hall
      | failed =>
          obtain ⟨e, hbuf, rfl⟩ := Option.map_eq_some_iff.mp hstep
          have hsame := h.noted e hbuf
          have hx : (p.event e).complete = none := by rw [hsame, h.incomplete]
          obtain ⟨hlog, hfollows⟩ := round_incomplete h hx
          rw [hsame] at hfollows
          obtain ⟨rounds, hrounds, hall⟩ := ih hfollows hrest
          exact ⟨[] :: rounds, by rw [hrounds, hlog, List.append_assoc]; rfl, .cons rfl hall⟩

theorem follows_init : Follows touchCtrl.init .nothing where
  flag := rfl
  x v hv := absurd hv (by simp [Arrived.nothing])
  incomplete := rfl
  noted e he := absurd he (by simp [touchCtrl])

/-- **Every run**, whatever is read and in which order. -/
theorem answered_exec {as : List TouchRead} {s : TouchCtrl}
    (hex : touchCtrl.exec touchCtrl.init as = some s) :
    List.Forall₂ Answered (expected .nothing as) s.rounds := by
  obtain ⟨rounds, hrounds, hall⟩ := answered_of_follows follows_init hex
  rw [hrounds]
  exact hall

/-! ## The intervals -/

theorem length_ifThen (c : Prop) [Decidable c] (act : TouchAct) :
    (ifThen c act).length = if c then 1 else 0 := by
  rw [ifThen]
  split <;> rfl

/-- **The nine intervals** have every x in exactly one of them, but for two. -/
theorem length_touched (mute : Bool) (x : ℤ) :
    (touched mute x).length = if x = 700 ∨ x = 750 then 0 else 1 := by
  simp only [touched, List.length_append, length_ifThen]
  grind

theorem served_of_answered {o : Option ℤ} {acts : List TouchAct} (h : Answered o acts) :
    Served o acts ↔ ∀ x, o = some x → x ≠ 700 ∧ x ≠ 750 := by
  cases o with
  | none => exact iff_of_true h fun x hx => absurd hx (by simp)
  | some x =>
      obtain ⟨mute, rfl⟩ := h
      have hlen := length_touched mute x
      simp only [Served, Option.some.injEq, forall_eq']
      constructor
      · rintro ⟨mute', act, -, hact⟩
        rw [hact] at hlen
        by_contra hgap
        rw [if_pos (by omega)] at hlen
        exact absurd hlen (by simp)
      · rintro ⟨h700, h750⟩
        rw [if_neg (by omega)] at hlen
        obtain ⟨act, hact⟩ := List.length_eq_one_iff.mp hlen
        exact ⟨mute, act, hact, hact⟩

/-- A relation that, for each related pair, says something about the left one. -/
theorem forall₂_iff_of_forall₂ {α β : Type*} {R S : α → β → Prop} {P : α → Prop}
    (hiff : ∀ a b, R a b → (S a b ↔ P a)) {as : List α} {bs : List β} (h : List.Forall₂ R as bs) :
    List.Forall₂ S as bs ↔ ∀ a ∈ as, P a := by
  induction h with
  | nil => simp
  | cons hab _ ih => rw [List.forall₂_cons, List.forall_mem_cons, hiff _ _ hab, ih]

/-- **Completed touches, exactly.**  In every run, each touch that is completed triggers exactly one
action, chosen by the most recent x, and every other event none, if and only if no touch is
completed with the x 700 or 750. -/
theorem served_iff {as : List TouchRead} {s : TouchCtrl}
    (hex : touchCtrl.exec touchCtrl.init as = some s) :
    List.Forall₂ Served (expected .nothing as) s.rounds ↔
      some 700 ∉ expected .nothing as ∧ some 750 ∉ expected .nothing as := by
  rw [forall₂_iff_of_forall₂ (S := Served) (fun _ _ h => served_of_answered h) (answered_exec hex)]
  constructor
  · intro h
    exact ⟨fun hmem => (h _ hmem 700 rfl).1 rfl, fun hmem => (h _ hmem 750 rfl).2 rfl⟩
  · rintro ⟨h700, h750⟩ o hmem x rfl
    refine ⟨?_, ?_⟩
    · rintro rfl
      exact h700 hmem
    · rintro rfl
      exact h750 hmem

/-- Events of a touch whose x is corrected from 750 to 751. -/
def correctedTouch : List TouchRead :=
  [.event ⟨3, 0, 750⟩, .event ⟨3, 0, 751⟩, .event ⟨3, 1, 5⟩]

theorem corrected_touch_served : ∃ s, touchCtrl.exec touchCtrl.init correctedTouch = some s ∧
    List.Forall₂ Served (expected .nothing correctedTouch) s.rounds :=
  ⟨_, rfl, (served_iff rfl).mpr (by decide)⟩

/-- Events of a touch at 750. -/
def touchAt750 : List TouchRead := [.event ⟨3, 0, 750⟩, .event ⟨3, 1, 5⟩]

/-- It is completed, and nothing happens. -/
theorem touch_at_750_unserved : ∃ s, touchCtrl.exec touchCtrl.init touchAt750 = some s ∧
    ¬ List.Forall₂ Served (expected .nothing touchAt750) s.rounds := by
  obtain ⟨s, hex, hrounds⟩ := touchCtrl.exists_exec touchCtrl.init touchAt750
    (fun s => s.rounds = [[], []]) (by decide +kernel)
  have htouch : expected .nothing touchAt750 = [none, some 750] := by decide
  refine ⟨s, hex, fun h => ?_⟩
  rw [htouch, hrounds] at h
  cases h with
  | cons _ h =>
      cases h with
      | cons hserved _ =>
          obtain ⟨mute, act, -, hact⟩ := hserved
          exact absurd hact (by simp)

/-! ## The flags -/

theorem mem_ifThen {c : Prop} [Decidable c] {act act' : TouchAct} :
    act ∈ ifThen c act' ↔ c ∧ act = act' := by
  rw [ifThen]
  split
  · simp_all
  · simp_all

/-- **The waits of the voice thread** see a completed touch as `Media.touch` has it. -/
theorem media_touch_eq (s : Media) (mute : Bool) (x : ℤ) :
    s.touch x =
      { s with
        touchFlag := s.touchFlag || decide (.touchFlag ∈ touched mute x)
        touchVoiceflag := s.touchVoiceflag || decide (.touchVoiceflag ∈ touched mute x)
        quitSinceStart := s.quitSinceStart || decide (.touchFlag ∈ touched mute x) } := by
  have hquit : .touchFlag ∈ touched mute x ↔ IsQuit x := by
    simp [touched, mem_ifThen, IsQuit]
  have hvoice : .touchVoiceflag ∈ touched mute x ↔ x > 750 := by
    simp [touched, mem_ifThen]
  rw [Media.touch, decide_eq_decide.mpr hquit, decide_eq_decide.mpr hvoice]

end CourseDesign.Voice
