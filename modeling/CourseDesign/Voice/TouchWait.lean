import CourseDesign.Voice.CommandLoop

/-!
# Leaving a player

The voice thread waits in `Operate` until the touch thread has seen a touch on the quit button.  The
two share `touch_flag` and `touch_voiceflag`; each label is one statement of the voice thread or one
touch, and labels come in any order.

* `music_wait_stays` — a quit touch never releases the wait of `Playmusic_ctrl`: its loop runs while
  the flag is set.
* `attended_preserved` — for the wait of `Video`, what the flag says and what was touched agree, if
  no quit touch came between its `touch_flag = 0` and the start of the player.
* `released_of_unhurried` — so without those two, every wait can be left and none is left early.
-/

namespace CourseDesign.Voice

/-- The statement the voice thread executes next. -/
inductive VoicePc where
  /-- The test of `while(touch_voiceflag)`. -/
  | test
  /-- From the recording to `Operate`. -/
  | awaitReply
  /-- The start of the player, in the branch of `Playmusic_ctrl`. -/
  | musicStart
  | musicWait
  /-- `touch_flag = 0`, in the branch of `Video`. -/
  | videoReset
  | videoStart
  | videoWait
  /-- `touch_voiceflag = 0`, after `Operate`. -/
  | clearVoice
  /-- `touch_flag = 0`. -/
  | clearTouch
  | exited
  deriving DecidableEq, Repr

/-- The flags and the voice thread.  `quitSinceStart` records whether a quit touch was handled since
the last start of a player, and `waitsEnded` its value at the end of each wait. -/
structure Media where
  pc : VoicePc
  touchFlag : Bool
  touchVoiceflag : Bool
  quitSinceStart : Bool
  waitsEnded : List Bool
  deriving DecidableEq, Repr

/-- A touch, or a statement of the voice thread. -/
inductive MediaAction where
  | touch (x : ℤ)
  | run
  /-- A round gets as far as `Operate` with this `Voice`. -/
  | reply (voice : List UInt8)
  | recvFailed
  deriving DecidableEq, Repr

/-- The button that leaves a player. -/
def IsQuit (x : ℤ) : Prop := 700 < x ∧ x < 750

instance (x : ℤ) : Decidable (IsQuit x) := inferInstanceAs (Decidable (_ ∧ _))

/-- What `thread_touch_ctrl` does to the flags at a touch; the other buttons send a command. -/
def Media.touch (s : Media) (x : ℤ) : Media :=
  { s with
    touchFlag := s.touchFlag || decide (IsQuit x)
    touchVoiceflag := s.touchVoiceflag || decide (x > 750)
    quitSinceStart := s.quitSinceStart || decide (IsQuit x) }

/-- Where `Operate` and the statement after it lead. -/
def afterReply (voice : List UInt8) : VoicePc :=
  if .playmusicCtrl ∈ operate voice then .musicStart
  else if .video ∈ operate voice then .videoReset
  else if strcmpEq voice 999 then .exited
  else .clearVoice

/-- The next statement of the voice thread, away from its `recv`. -/
def Media.run (s : Media) : Media :=
  match s.pc with
  | .test => if s.touchVoiceflag then { s with pc := .awaitReply } else s
  | .musicStart => { s with pc := .musicWait, quitSinceStart := false }
  | .musicWait =>
      if s.touchFlag then s
      else { s with pc := .clearVoice, waitsEnded := s.waitsEnded ++ [s.quitSinceStart] }
  | .videoReset => { s with pc := .videoStart, touchFlag := false }
  | .videoStart => { s with pc := .videoWait, quitSinceStart := false }
  | .videoWait =>
      if s.touchFlag then
        { s with pc := .clearVoice, waitsEnded := s.waitsEnded ++ [s.quitSinceStart] }
      else s
  | .clearVoice => { s with pc := .clearTouch, touchVoiceflag := false }
  | .clearTouch => { s with pc := .test, touchFlag := false }
  | .awaitReply | .exited => s

def media : Machine Media MediaAction where
  init :=
    { pc := .test, touchFlag := false, touchVoiceflag := false, quitSinceStart := false,
      waitsEnded := [] }
  step s
    | .touch x => some (s.touch x)
    | .run => some s.run
    | .reply voice => Machine.when (s.pc = .awaitReply) { s with pc := afterReply voice }
    | .recvFailed => Machine.when (s.pc = .awaitReply) { s with pc := .exited }

/-! ## The property and the condition -/

/-- Inside a wait loop whose condition is true. -/
def Media.loops (s : Media) : Bool :=
  match s.pc with
  | .musicWait => s.touchFlag
  | .videoWait => !s.touchFlag
  | _ => false

/-- One quit touch makes the condition of the loop false. -/
def Media.Releasable (s : Media) : Prop := ∀ x, IsQuit x → (s.touch x).loops = false

/-- No wait ended before a quit touch that came after the start of its player. -/
def Media.NoneEarly (s : Media) : Prop := ∀ quit ∈ s.waitsEnded, quit = true

/-- The condition on a step: the command is not `Playmusic_ctrl`, and the quit button is left alone
between the reset of the flag and the start of the player. -/
def Unhurried (s : Media) : MediaAction → Prop
  | .reply voice => .playmusicCtrl ∉ operate voice
  | .touch x => s.pc = .videoStart → ¬ IsQuit x
  | _ => True

instance (s : Media) : ∀ a, Decidable (Unhurried s a)
  | .reply voice => inferInstanceAs (Decidable (.playmusicCtrl ∉ operate voice))
  | .touch x => inferInstanceAs (Decidable (s.pc = .videoStart → ¬ IsQuit x))
  | .run | .recvFailed => inferInstanceAs (Decidable True)

/-- **The wait of `Playmusic_ctrl`** is not released by a quit touch in any state. -/
theorem music_wait_stays {s : Media} (hs : s.pc = .musicWait) {x : ℤ} (hx : IsQuit x) :
    (s.touch x).loops = true := by
  simp [Media.loops, Media.touch, hs, hx]

/-! ## The invariant -/

/-- The flag is down when the player of `Video` is started, and from then on says whether a quit
touch was handled. -/
structure Media.Attended (s : Media) : Prop where
  noMusic : s.pc ≠ .musicStart ∧ s.pc ≠ .musicWait
  starting : s.pc = .videoStart → s.touchFlag = false
  playing : s.pc = .videoWait → s.touchFlag = s.quitSinceStart
  noneEarly : s.NoneEarly

theorem attended_run {s : Media} (h : s.Attended) : s.run.Attended := by
  obtain ⟨⟨hstart, hwait⟩, hstarting, hplaying, hnone⟩ := h
  cases hpc : s.pc with
  | musicStart => exact absurd hpc hstart
  | musicWait => exact absurd hpc hwait
  | test =>
      simp only [Media.run, hpc]
      split
      · exact ⟨by simp, by simp, by simp, hnone⟩
      · exact ⟨by simp [hpc], by simp [hpc], by simp [hpc], hnone⟩
  | videoReset =>
      simp only [Media.run, hpc]
      exact ⟨by simp, by simp, by simp, hnone⟩
  | videoStart =>
      simp only [Media.run, hpc]
      exact ⟨by simp, by simp, fun _ => hstarting hpc, hnone⟩
  | videoWait =>
      simp only [Media.run, hpc]
      split
      · rename_i hflag
        refine ⟨by simp, by simp, by simp, fun quit hquit => ?_⟩
        rcases List.mem_append.mp hquit with hold | hnew
        · exact hnone quit hold
        · rw [List.mem_singleton.mp hnew, ← hplaying hpc, hflag]
      · exact ⟨by simp [hpc], by simp [hpc], fun _ => hplaying hpc, hnone⟩
  | clearVoice | clearTouch =>
      simp only [Media.run, hpc]
      exact ⟨by simp, by simp, by simp, hnone⟩
  | awaitReply | exited =>
      simp only [Media.run, hpc]
      exact ⟨by simp [hpc], by simp [hpc], by simp [hpc], hnone⟩

/-- A touch moves the flag and its record together, except while the player is being started. -/
theorem attended_touch {s : Media} {x : ℤ} (h : s.Attended)
    (hx : s.pc = .videoStart → ¬ IsQuit x) : (s.touch x).Attended where
  noMusic := h.noMusic
  starting hpc := by simp [Media.touch, h.starting hpc, hx hpc]
  playing hpc := by simp [Media.touch, h.playing hpc]
  noneEarly := h.noneEarly

theorem attended_reply {s : Media} {voice : List UInt8} (h : s.Attended)
    (hvoice : .playmusicCtrl ∉ operate voice) :
    Media.Attended { s with pc := afterReply voice } := by
  have hpc : afterReply voice = .videoReset ∨ afterReply voice = .exited ∨
      afterReply voice = .clearVoice := by
    rw [afterReply, if_neg hvoice]
    split_ifs <;> simp
  rcases hpc with hpc | hpc | hpc <;>
    exact ⟨by simp [hpc], by simp [hpc], by simp [hpc], h.noneEarly⟩

/-- **Step lemma.** -/
theorem attended_preserved : media.Preserves Unhurried Media.Attended := by
  intro s a t hs ha h
  cases a with
  | touch x =>
      obtain rfl := Option.some.inj h
      exact attended_touch hs ha
  | run =>
      obtain rfl := Option.some.inj h
      exact attended_run hs
  | reply voice =>
      obtain ⟨-, rfl⟩ := Machine.when_eq_some.mp h
      exact attended_reply hs ha
  | recvFailed =>
      obtain ⟨-, rfl⟩ := Machine.when_eq_some.mp h
      exact ⟨by simp, by simp, by simp, hs.noneEarly⟩

theorem attended_init : media.init.Attended :=
  ⟨by decide, by decide, by decide, by simp [Media.NoneEarly, media]⟩

theorem Media.Attended.releasable {s : Media} (h : s.Attended) : s.Releasable := by
  intro x hx
  cases hpc : s.pc with
  | musicWait => exact absurd hpc h.noMusic.2
  | videoWait => simp [Media.loops, Media.touch, hpc, hx]
  | _ => simp [Media.loops, Media.touch, hpc]

/-- **Touch release.**  In every run without `Playmusic_ctrl`, and without a quit touch between
`Video`'s reset of the flag and the start of its player, every state is one in which a quit touch
ends the wait, and no wait has ended before one. -/
theorem released_of_unhurried {as : List MediaAction} (h : media.Along Unhurried media.init as) :
    media.Throughout (fun s => s.Releasable ∧ s.NoneEarly) media.init as :=
  (Machine.throughout_of_preserves attended_preserved attended_init h).mono
    fun _ hs => ⟨hs.releasable, hs.noneEarly⟩

/-- A voice command, as far as `Operate` gets with it. -/
def commandRound (number : ℕ) : List MediaAction :=
  [.touch 780, .run, .reply (padded (Decimal.text number))]

/-- `Playmusic_ctrl`: a quit touch keeps its loop running, and without one it ends at once. -/
theorem music_wait_is_inverted :
    (∃ s, media.exec media.init (commandRound 5 ++ [.run]) = some s ∧ s.pc = .musicWait ∧
        (s.touch 720).loops = true) ∧
      (∃ s, media.exec media.init (commandRound 5 ++ [.run, .run]) = some s ∧
        s.waitsEnded = [false]) ∧
      ∃ s, media.exec media.init (commandRound 8 ++ [.run, .touch 720, .run, .run]) = some s ∧
        s.waitsEnded = [false] := by
  refine ⟨?_, ?_, ?_⟩
  · exact media.exists_exec media.init _ (fun s => s.pc = .musicWait ∧ (s.touch 720).loops = true)
      (by decide +kernel)
  · exact media.exists_exec media.init _ (fun s => s.waitsEnded = [false]) (by decide +kernel)
  · exact media.exists_exec media.init _ (fun s => s.waitsEnded = [false]) (by decide +kernel)

/-- `Video`, left by a quit touch after its start. -/
theorem video_is_released :
    media.Throughout (fun s => s.Releasable ∧ s.NoneEarly) media.init
        (commandRound 8 ++ [.run, .run, .run, .touch 720, .run]) ∧
      ∃ s, media.exec media.init (commandRound 8 ++ [.run, .run, .run, .touch 720, .run]) = some s ∧
        s.waitsEnded = [true] := by
  refine ⟨released_of_unhurried (by decide +kernel), ?_⟩
  exact media.exists_exec media.init _ (fun s => s.waitsEnded = [true]) (by decide +kernel)

end CourseDesign.Voice
