import CourseDesign.Drivers.InputEvent

/-!
# Touch positions in two halves

The viewer (`mainwindow.cpp`) writes the x and the y of a mouse event to the touch device one after
the other, and `get_xy` (`lcd_event_ui.c`) puts pairs together out of what it reads there.  The
device has one slot, so the reader may miss halves and may read them again.

* `Touch.Matched` — the condition on a step: when the viewer writes a y, `get_xy` does not hold the
  x of another position.
* `paired_preserved` — under it, the y in the slot is never the y of another position than the x
  that the reader holds.
* `onePosition_iff_matched` — a run meets it if and only if, wherever the viewer is stopped and the
  reader goes on alone, every pair that `get_xy` returns is one position.
-/

namespace CourseDesign.Drivers

/-- What the viewer's handler is called for, with the time bytes that happen to be in `data`. -/
structure MouseEvent where
  x : BitVec 32
  y : BitVec 32
  time : TimeBytes
  deriving DecidableEq, Repr

inductive Axis where
  | x
  | y
  deriving DecidableEq, Repr

/-- `data` for one of the two writes of `mousePressEvent` and `mouseMoveEvent`. -/
def MouseEvent.half (m : MouseEvent) : Axis → InputEvent
  | .x => { type := 3, code := 0, value := m.x }
  | .y => { type := 3, code := 1, value := m.y }

/-- Where the viewer is: between events, in one of the two calls of `write`, or in `usleep`. -/
inductive ViewerPc where
  | idle
  | copy (axis : Axis) (m : MouseEvent)
  | count (axis : Axis) (m : MouseEvent)
  | usleep (m : MouseEvent)
  deriving DecidableEq, Repr

/-- `*x` and `*y` in one call of `get_xy`, with the number of the mouse event each was read from. -/
structure GetXy where
  x : BitVec 32
  y : BitVec 32
  xFrom : Option ℕ
  yFrom : Option ℕ
  deriving DecidableEq, Repr

def GetXy.start : GetXy := { x := -1, y := -1, xFrom := none, yFrom := none }

/-- The rest of the loop of `get_xy` after a `read`, and whether it ends in `break`. -/
def GetXy.loop (g : GetXy) (data : InputEvent) (origin : Option ℕ) : GetXy × Bool :=
  if data.type = 3 ∧ data.code = 0 then ({ g with x := data.value, xFrom := origin }, false)
  else if data.type = 3 ∧ data.code = 1 then
    ({ g with y := data.value, yFrom := origin }, decide (0 ≤ g.x.toInt))
  else (g, false)

/-- Where the reader is in `read`. -/
inductive ReaderPc where
  | wait
  | copy
  | count (data : InputEvent) (origin : Option ℕ)
  deriving DecidableEq, Repr

/-- The device, the viewer and the reader.  `mouse`, `slotFrom` and `returned` record what happened;
no statement of the source reads them. -/
structure Touch where
  drv : EventState
  viewer : ViewerPc
  reader : ReaderPc
  call : GetXy
  mouse : List MouseEvent
  /-- The mouse event that the slot was last written for. -/
  slotFrom : Option ℕ
  returned : List GetXy

inductive TouchAction where
  | mouseEvent (m : MouseEvent)
  | viewerCopy
  | viewerCount
  | usleep
  | readWait (signal : Bool)
  | readCopy
  | readCount
  deriving DecidableEq, Repr

open Machine (when)

/-- The two programs over the device.  Their buffers are variables of their own, so no copy stops
early. -/
def touch : Machine Touch TouchAction where
  init :=
    { drv := eventDrv.init, viewer := .idle, reader := .wait, call := GetXy.start, mouse := [],
      slotFrom := none, returned := [] }
  step s
    | .mouseEvent m => when (s.viewer = .idle)
        { s with viewer := .copy .x m, mouse := s.mouse ++ [m] }
    | .viewerCopy => match s.viewer with
        | .copy axis m =>
            (eventDrv.step s.drv (.writeCopy ((m.half axis).bytes m.time) sizeofInputEvent)).map
              fun drv =>
                { s with
                  drv := drv
                  viewer := .count axis m
                  slotFrom := some (s.mouse.length - 1) }
        | _ => none
    | .viewerCount => match s.viewer with
        | .count axis m =>
            (eventDrv.step s.drv .writeCount).map fun drv =>
              { s with drv := drv, viewer := if axis = .x then .usleep m else .idle }
        | _ => none
    | .usleep => match s.viewer with
        | .usleep m => some { s with viewer := .copy .y m }
        | _ => none
    | .readWait signal => match s.reader with
        | .wait => (eventDrv.step s.drv (.readWait signal)).map fun drv =>
            { s with drv := drv, reader := .copy }
        | _ => none
    | .readCopy => match s.reader with
        | .copy =>
            (eventDrv.step s.drv (.readCopy sizeofInputEvent sizeofInputEvent)).map fun drv =>
              { s with drv := drv, reader := .count s.drv.slot s.slotFrom }
        | _ => none
    | .readCount => match s.reader with
        | .count data origin => (eventDrv.step s.drv .readCount).map fun drv =>
            let (call, done) := s.call.loop data origin
            { s with
              drv := drv
              reader := .wait
              call := if done then GetXy.start else call
              returned := if done then s.returned ++ [call] else s.returned }
        | _ => none

/-! ## The property and the condition -/

/-- The pair is the position of one single mouse event. -/
def GetXy.IsPosition (mouse : List MouseEvent) (g : GetXy) : Prop :=
  ∃ k m, mouse[k]? = some m ∧ g.xFrom = some k ∧ g.yFrom = some k ∧ g.x = m.x ∧ g.y = m.y

def Touch.OnePosition (s : Touch) : Prop := ∀ g ∈ s.returned, g.IsPosition s.mouse

/-- The call of `get_xy` once the event it is reading has gone through its loop. -/
def Touch.afterRead (s : Touch) : GetXy :=
  match s.reader with
  | .count data origin =>
      let (call, done) := s.call.loop data origin
      if done then GetXy.start else call
  | _ => s.call

/-- The position whose x the next y will be combined with. -/
def Touch.holding (s : Touch) : Option ℕ :=
  if 0 ≤ s.afterRead.x.toInt then s.afterRead.xFrom else none

/-- The viewer is about to write a y. -/
def ViewerPc.atY : ViewerPc → Bool
  | .copy .y _ => true
  | _ => false

/-- A y is written while `get_xy` holds no other x than its own. -/
def Touch.Matched (s : Touch) : TouchAction → Prop
  | .viewerCopy => s.viewer.atY = true → ∀ k ∈ s.holding, k + 1 = s.mouse.length
  | _ => True

instance (s : Touch) : DecidablePred s.Matched
  | .viewerCopy => inferInstanceAs
      (Decidable (s.viewer.atY = true → ∀ k ∈ s.holding, k + 1 = s.mouse.length))
  | .mouseEvent _ | .viewerCount | .usleep | .readWait _ | .readCopy | .readCount => isTrue trivial

def TouchAction.ofReader : TouchAction → Prop
  | .readWait _ | .readCopy | .readCount => True
  | _ => False

/-! ## One event through the loop -/

/-- What can be in the slot: the zeros of `open`, or half of a mouse event. -/
def IsHalf (mouse : List MouseEvent) (data : InputEvent) (origin : Option ℕ) : Prop :=
  (data = { type := 0, code := 0, value := 0 } ∧ origin = none) ∨
    ∃ k m axis, origin = some k ∧ mouse[k]? = some m ∧ data = m.half axis

theorem loop_zeros (g : GetXy) (origin : Option ℕ) :
    g.loop { type := 0, code := 0, value := 0 } origin = (g, false) := by
  simp [GetXy.loop]

theorem loop_x (g : GetXy) (m : MouseEvent) (origin : Option ℕ) :
    g.loop (m.half .x) origin = ({ g with x := m.x, xFrom := origin }, false) := by
  simp [GetXy.loop, MouseEvent.half]

theorem loop_y (g : GetXy) (m : MouseEvent) (origin : Option ℕ) :
    g.loop (m.half .y) origin =
      ({ g with y := m.y, yFrom := origin }, decide (0 ≤ g.x.toInt)) := by
  simp [GetXy.loop, MouseEvent.half]

theorem getElem?_concat_of_some {α : Type*} {xs : List α} {k : ℕ} {x : α} (y : α)
    (h : xs[k]? = some x) : (xs ++ [y])[k]? = some x := by
  obtain ⟨hk, -⟩ := List.getElem?_eq_some_iff.mp h
  rw [List.getElem?_append_left hk, h]

theorem IsHalf.concat {mouse : List MouseEvent} {data : InputEvent} {origin : Option ℕ}
    (m : MouseEvent) (h : IsHalf mouse data origin) : IsHalf (mouse ++ [m]) data origin := by
  rcases h with h | ⟨k, m', axis, horigin, hk, hdata⟩
  · exact Or.inl h
  · exact Or.inr ⟨k, m', axis, horigin, getElem?_concat_of_some m hk, hdata⟩

theorem GetXy.IsPosition.concat {mouse : List MouseEvent} {g : GetXy} (m : MouseEvent)
    (h : g.IsPosition mouse) : g.IsPosition (mouse ++ [m]) := by
  obtain ⟨k, m', hk, hg⟩ := h
  exact ⟨k, m', getElem?_concat_of_some m hk, hg⟩

/-! ## What a step does -/

/-- The event the viewer is handling. -/
def ViewerPc.event : ViewerPc → Option MouseEvent
  | .idle => none
  | .copy _ m | .count _ m | .usleep m => some m

/-- The step is enabled, and leads to a state that the device's step `drv` enters. -/
theorem map_step_eq_some {d : EventState} {a : EventAction} {f : EventState → Touch} {t : Touch}
    (h : (eventDrv.step d a).map f = some t) :
    ∃ drv, eventDrv.step d a = some drv ∧ f drv = t := by
  simpa [Option.map_eq_some_iff] using h

/-- A write of half an event leaves that half in the slot. -/
theorem drv_writeCopy (d : EventState) (m : MouseEvent) (axis : Axis) :
    ∃ drv, eventDrv.step d (.writeCopy ((m.half axis).bytes m.time) sizeofInputEvent) = some drv ∧
      drv.slot = m.half axis ∧ drv.ready = d.ready ∧ drv.copied = d.copied := by
  have hlen : sizeofInputEvent = ((m.half axis).bytes m.time).length := by simp
  refine ⟨_, Machine.when_eq_some.mpr ⟨hlen.le, rfl⟩, ?_⟩
  rw [hlen, EventState.copyIn_whole _ hlen.ge]
  exact ⟨slot_store d m.time (m.half axis), rfl, rfl⟩

theorem drv_readCopy {d : EventState} (h : 0 < d.ready) :
    ∃ drv, eventDrv.step d (.readCopy sizeofInputEvent sizeofInputEvent) = some drv ∧
      drv.slot = d.slot ∧ drv.copied = d.copied + 1 := by
  refine ⟨_, Machine.when_eq_some.mpr ⟨⟨h, le_rfl⟩, rfl⟩, ?_⟩
  rw [EventState.copyOut_whole _ le_rfl]
  exact ⟨rfl, rfl⟩

theorem viewerCopy_of_step {s t : Touch} (h : touch.step s .viewerCopy = some t) :
    ∃ axis m drv, s.viewer = .copy axis m ∧ drv.slot = m.half axis ∧ drv.ready = s.drv.ready ∧
      drv.copied = s.drv.copied ∧
      { s with
        drv := drv
        viewer := .count axis m
        slotFrom := some (s.mouse.length - 1) } = t := by
  simp only [touch] at h
  split at h
  · rename_i axis m hpc
    obtain ⟨drv, hdrv, ht⟩ := map_step_eq_some h
    obtain ⟨drv', hdrv', hslot, hready, hcopied⟩ := drv_writeCopy s.drv m axis
    obtain rfl : drv' = drv := Option.some.inj (hdrv'.symm.trans hdrv)
    exact ⟨axis, m, drv', hpc, hslot, hready, hcopied, ht⟩
  · cases h

theorem viewerCount_of_step {s t : Touch} (h : touch.step s .viewerCount = some t) :
    ∃ axis m, s.viewer = .count axis m ∧
      { s with
        drv := { s.drv with stored := s.drv.stored - 1, haveData := s.drv.haveData + 1 }
        viewer := if axis = .x then .usleep m else .idle } = t := by
  simp only [touch] at h
  split at h
  · rename_i axis m hpc
    obtain ⟨drv, hdrv, ht⟩ := map_step_eq_some h
    obtain ⟨-, rfl⟩ := Machine.when_eq_some.mp hdrv
    exact ⟨axis, m, hpc, ht⟩
  · cases h

theorem usleep_of_step {s t : Touch} (h : touch.step s .usleep = some t) :
    ∃ m, s.viewer = .usleep m ∧ { s with viewer := .copy .y m } = t := by
  simp only [touch] at h
  split at h
  · rename_i m hpc
    exact ⟨m, hpc, Option.some.inj h⟩
  · cases h

theorem readWait_of_step {s t : Touch} {signal : Bool}
    (h : touch.step s (.readWait signal) = some t) :
    s.reader = .wait ∧
      { s with drv := { s.drv with ready := s.drv.ready + 1 }, reader := .copy } = t := by
  simp only [touch] at h
  split at h
  · rename_i hpc
    obtain ⟨drv, hdrv, ht⟩ := map_step_eq_some h
    obtain ⟨-, rfl⟩ := Machine.when_eq_some.mp hdrv
    exact ⟨hpc, ht⟩
  · cases h

theorem readCopy_of_step {s t : Touch} (h : touch.step s .readCopy = some t) :
    ∃ drv, s.reader = .copy ∧ drv.slot = s.drv.slot ∧ drv.copied = s.drv.copied + 1 ∧
      { s with drv := drv, reader := .count s.drv.slot s.slotFrom } = t := by
  simp only [touch] at h
  split at h
  · rename_i hpc
    obtain ⟨drv, hdrv, ht⟩ := map_step_eq_some h
    obtain ⟨⟨hready, -⟩, -⟩ := Machine.when_eq_some.mp hdrv
    obtain ⟨drv', hdrv', hslot, hcopied⟩ := drv_readCopy hready
    obtain rfl : drv' = drv := Option.some.inj (hdrv'.symm.trans hdrv)
    exact ⟨drv', hpc, hslot, hcopied, ht⟩
  · cases h

theorem readCount_of_step {s t : Touch} (h : touch.step s .readCount = some t) :
    ∃ data origin, s.reader = .count data origin ∧
      { s with
        drv := { s.drv with copied := s.drv.copied - 1, haveData := s.drv.haveData - 1 }
        reader := .wait
        call := s.afterRead
        returned := if (s.call.loop data origin).2 then s.returned ++ [(s.call.loop data origin).1]
          else s.returned } = t := by
  simp only [touch] at h
  split at h
  · rename_i data origin hpc
    obtain ⟨drv, hdrv, ht⟩ := map_step_eq_some h
    obtain ⟨-, rfl⟩ := Machine.when_eq_some.mp hdrv
    refine ⟨data, origin, hpc, ?_⟩
    simpa only [Touch.afterRead, hpc] using ht
  · cases h

/-- The reader's own calls are in flight in the device, so its next step is enabled. -/
structure Touch.InCall (s : Touch) : Prop where
  ready : s.reader = .copy → 0 < s.drv.ready
  copied : ∀ data origin, s.reader = .count data origin → 0 < s.drv.copied

theorem inCall_preserved : touch.Preserves (fun _ _ => True) Touch.InCall := by
  rintro s a t hs - h
  cases a with
  | mouseEvent m =>
      obtain ⟨-, rfl⟩ := Machine.when_eq_some.mp h
      exact ⟨hs.ready, hs.copied⟩
  | viewerCopy =>
      obtain ⟨axis, m, drv, -, -, hready, hcopied, rfl⟩ := viewerCopy_of_step h
      refine ⟨fun hr => ?_, fun data origin hr => ?_⟩
      · rw [hready]
        exact hs.ready hr
      · rw [hcopied]
        exact hs.copied data origin hr
  | viewerCount =>
      obtain ⟨axis, m, -, rfl⟩ := viewerCount_of_step h
      exact ⟨hs.ready, hs.copied⟩
  | usleep =>
      obtain ⟨m, -, rfl⟩ := usleep_of_step h
      exact ⟨hs.ready, hs.copied⟩
  | readWait signal =>
      obtain ⟨-, rfl⟩ := readWait_of_step h
      exact ⟨fun _ => Nat.succ_pos _, fun data origin hr => by simp at hr⟩
  | readCopy =>
      obtain ⟨drv, -, -, hcopied, rfl⟩ := readCopy_of_step h
      refine ⟨fun hr => by simp at hr, fun data origin hr => ?_⟩
      rw [hcopied]
      omega
  | readCount =>
      obtain ⟨data, origin, -, rfl⟩ := readCount_of_step h
      exact ⟨fun hr => by simp at hr, fun data origin hr => by simp at hr⟩

/-! ## The invariant -/

/-- The call of `get_xy` holds no x, or that of the mouse event it says. -/
def GetXy.Holds (mouse : List MouseEvent) (g : GetXy) : Prop :=
  0 ≤ g.x.toInt → ∃ k m, mouse[k]? = some m ∧ g.xFrom = some k ∧ g.x = m.x

/-- A y that was read goes with the x that is held. -/
def GetXy.Fits (g : GetXy) (data : InputEvent) (origin : Option ℕ) : Prop :=
  data.code = 1 → 0 ≤ g.x.toInt → g.xFrom = origin

structure Touch.Paired (s : Touch) : Prop where
  inCall : s.InCall
  current : ∀ m ∈ s.viewer.event, s.mouse[s.mouse.length - 1]? = some m
  slot : IsHalf s.mouse s.drv.slot s.slotFrom
  reading : ∀ data origin, s.reader = .count data origin →
    IsHalf s.mouse data origin ∧ s.call.Fits data origin
  held : s.call.Holds s.mouse
  slot_fits : s.drv.slot.code = 1 → ∀ k ∈ s.holding, s.slotFrom = some k
  onePosition : s.OnePosition

theorem GetXy.Holds.concat {mouse : List MouseEvent} {g : GetXy} (m : MouseEvent)
    (h : g.Holds mouse) : g.Holds (mouse ++ [m]) := by
  intro hx
  obtain ⟨k, m', hk, hg⟩ := h hx
  exact ⟨k, m', getElem?_concat_of_some m hk, hg⟩

@[simp] theorem start_holds (mouse : List MouseEvent) : GetXy.start.Holds mouse := by
  intro hx
  exact absurd hx (by decide)

/-- **One turn of the loop of `get_xy`**: if the event fits the x that is held, what is returned is
one position, and what is held afterwards is again the x of some event. -/
theorem loop_paired {mouse : List MouseEvent} {g : GetXy} {data : InputEvent} {origin : Option ℕ}
    (hg : g.Holds mouse) (hdata : IsHalf mouse data origin) (hfits : g.Fits data origin) :
    if (g.loop data origin).2 then (g.loop data origin).1.IsPosition mouse
    else (g.loop data origin).1.Holds mouse := by
  rcases hdata with ⟨rfl, -⟩ | ⟨k, m, axis, rfl, hk, rfl⟩
  · rw [loop_zeros]
    exact hg
  · cases axis with
    | x =>
        rw [loop_x]
        exact fun _ => ⟨k, m, hk, rfl, rfl⟩
    | y =>
        rw [loop_y]
        by_cases hx : 0 ≤ g.x.toInt
        · obtain ⟨k', m', hk', hfrom, hx'⟩ := hg hx
          obtain rfl : k' = k := Option.some.inj (hfrom.symm.trans (hfits rfl hx))
          obtain rfl : m' = m := Option.some.inj (hk'.symm.trans hk)
          simp only [hx, decide_true, if_true]
          exact ⟨k', m', hk, hfrom, rfl, hx', rfl⟩
        · simp only [hx, decide_false, Bool.false_eq_true, if_false]
          exact fun hx' => absurd hx' hx

/-- After a y has gone through the loop nothing is held. -/
theorem afterRead_y {s : Touch} {m : MouseEvent} {origin : Option ℕ}
    (hpc : s.reader = .count (m.half .y) origin) : s.holding = none := by
  simp only [Touch.holding, Touch.afterRead, hpc, loop_y]
  by_cases hx : 0 ≤ s.call.x.toInt
  · simp [hx, GetXy.start]
  · simp [hx]

theorem holding_of_not_reading {s : Touch} (hpc : ∀ data origin, s.reader ≠ .count data origin) :
    s.holding = if 0 ≤ s.call.x.toInt then s.call.xFrom else none := by
  have hafter : s.afterRead = s.call := by
    cases hr : s.reader with
    | count data origin => exact absurd hr (hpc data origin)
    | wait | copy => simp [Touch.afterRead, hr]
  rw [Touch.holding, hafter]

/-- The viewer's steps: only its write changes the slot, and a y it writes fits. -/
theorem paired_viewer {s t : Touch} {a : TouchAction} (hs : s.Paired) (hm : s.Matched a)
    (ha : ¬ a.ofReader) (h : touch.step s a = some t) : t.Paired := by
  have hcall : t.InCall := inCall_preserved hs.inCall trivial h
  cases a with
  | mouseEvent m =>
      obtain ⟨-, rfl⟩ := Machine.when_eq_some.mp h
      exact
        { inCall := hcall
          current := fun m' hm' => by
            obtain rfl : m = m' := Option.some.inj hm'
            simp
          slot := hs.slot.concat m
          reading := fun data origin hr =>
            ⟨(hs.reading data origin hr).1.concat m, (hs.reading data origin hr).2⟩
          held := hs.held.concat m
          slot_fits := hs.slot_fits
          onePosition := fun g hg => (hs.onePosition g hg).concat m }
  | viewerCopy =>
      obtain ⟨axis, m, drv, hpc, hslot, -, -, rfl⟩ := viewerCopy_of_step h
      have hcur : s.mouse[s.mouse.length - 1]? = some m :=
        hs.current m (by simp [hpc, ViewerPc.event])
      refine
        { hs with
          inCall := hcall
          current := fun m' hm' => ?_
          slot := Or.inr ⟨_, m, axis, rfl, hcur, hslot⟩
          slot_fits := fun hy k hk => ?_ }
      · obtain rfl : m = m' := Option.some.inj hm'
        exact hcur
      · cases axis with
        | x => exact absurd (hslot ▸ hy) (by simp [MouseEvent.half])
        | y =>
            have hlast : k + 1 = s.mouse.length := hm (by simp [hpc, ViewerPc.atY]) k hk
            simp [← hlast]
  | viewerCount =>
      obtain ⟨axis, m, hpc, rfl⟩ := viewerCount_of_step h
      refine { hs with inCall := hcall, current := fun m' hm' => hs.current m' ?_ }
      cases axis <;> simp_all [ViewerPc.event]
  | usleep =>
      obtain ⟨m, hpc, rfl⟩ := usleep_of_step h
      refine { hs with inCall := hcall, current := fun m' hm' => hs.current m' ?_ }
      simpa [hpc, ViewerPc.event] using hm'
  | readWait _ | readCopy | readCount => exact absurd trivial ha

/-- What the reader copies fits what it holds, because the slot does. -/
theorem paired_readCopy {s t : Touch} (hs : s.Paired) (hcall : t.InCall)
    (h : touch.step s .readCopy = some t) : t.Paired := by
  obtain ⟨drv, hpc, hslot, -, rfl⟩ := readCopy_of_step h
  have hfits : s.call.Fits s.drv.slot s.slotFrom := by
    intro hy hx
    obtain ⟨k, -, -, hfrom, -⟩ := hs.held hx
    have hhold : s.holding = some k := by
      rw [holding_of_not_reading (by simp [hpc]), if_pos hx, hfrom]
    rw [hfrom, hs.slot_fits hy k hhold]
  refine
    { hs with
      inCall := hcall
      slot := by
        rw [hslot]
        exact hs.slot
      reading := fun data origin hr => ?_
      slot_fits := fun hy k hk => ?_ }
  · obtain ⟨rfl, rfl⟩ : s.drv.slot = data ∧ s.slotFrom = origin := by simpa using hr
    exact ⟨hs.slot, hfits⟩
  · -- a y is in the slot, so it is a y that was read
    dsimp only at hy
    rw [hslot] at hy
    rcases hs.slot with ⟨hzero, -⟩ | ⟨k', m, axis, -, -, hhalf⟩
    · exact absurd hy (by simp [hzero])
    · cases axis with
      | x => exact absurd hy (by simp [hhalf, MouseEvent.half])
      | y =>
          have hread : ReaderPc.count s.drv.slot s.slotFrom =
              .count (m.half .y) s.slotFrom := by rw [hhalf]
          rw [afterRead_y hread] at hk
          simp at hk

/-- What the reader copied, it notes, and a position it gives has both its halves from one event. -/
theorem paired_readCount {s t : Touch} (hs : s.Paired) (hcall : t.InCall)
    (h : touch.step s .readCount = some t) : t.Paired := by
  obtain ⟨data, origin, hpc, rfl⟩ := readCount_of_step h
  obtain ⟨hdata, hfits⟩ := hs.reading data origin hpc
  have hloop := loop_paired hs.held hdata hfits
  refine
    { hs with
      inCall := hcall
      reading := fun data origin hr => by simp at hr
      held := ?_
      slot_fits := fun hy k hk => hs.slot_fits hy k hk
      onePosition := fun g hg => ?_ }
  · dsimp only [Touch.afterRead]
    rw [hpc]
    by_cases hdone : (s.call.loop data origin).2 = true
    · simp [hdone]
    · simpa [hdone] using hloop
  · dsimp only at hg
    by_cases hdone : (s.call.loop data origin).2 = true
    · rw [if_pos hdone, List.mem_append, List.mem_singleton] at hg
      rcases hg with hg | rfl
      · exact hs.onePosition g hg
      · simpa [hdone] using hloop
    · rw [if_neg hdone] at hg
      exact hs.onePosition g hg

/-- The reader's steps. -/
theorem paired_reader {s t : Touch} {a : TouchAction} (hs : s.Paired) (ha : a.ofReader)
    (h : touch.step s a = some t) : t.Paired := by
  have hcall : t.InCall := inCall_preserved hs.inCall trivial h
  cases a with
  | readWait signal =>
      obtain ⟨hpc, rfl⟩ := readWait_of_step h
      refine
        { hs with
          inCall := hcall
          reading := fun data origin hr => by simp at hr
          slot_fits := fun hy k hk => hs.slot_fits hy k ?_ }
      rw [holding_of_not_reading (by simp [hpc])]
      rw [holding_of_not_reading (by simp)] at hk
      exact hk
  | readCopy => exact paired_readCopy hs hcall h
  | readCount => exact paired_readCount hs hcall h
  | mouseEvent _ | viewerCopy | viewerCount | usleep => exact absurd ha id

/-- **Step lemma.** -/
theorem paired_preserved : touch.Preserves Touch.Matched Touch.Paired := by
  intro s a t hs hm h
  by_cases ha : a.ofReader
  · exact paired_reader hs ha h
  · exact paired_viewer hs hm ha h

theorem slot_init : eventDrv.init.slot = { type := 0, code := 0, value := 0 } := by
  decide +kernel

theorem paired_init : touch.init.Paired := by
  constructor
  · constructor <;> simp [touch]
  · simp [touch, ViewerPc.event]
  · exact Or.inl ⟨slot_init, rfl⟩
  · simp [touch]
  · exact start_holds _
  · intro hy
    have hzero : touch.init.drv.slot = { type := 0, code := 0, value := 0 } := slot_init
    rw [hzero] at hy
    simp at hy
  · simp [touch, Touch.OnePosition]

/-! ## The damage -/

theorem step_readCount {s : Touch} {data : InputEvent} {origin : Option ℕ}
    (hpc : s.reader = .count data origin) (hs : s.InCall) :
    touch.step s .readCount = some
      { s with
        drv := { s.drv with copied := s.drv.copied - 1, haveData := s.drv.haveData - 1 }
        reader := .wait
        call := s.afterRead
        returned := if (s.call.loop data origin).2 then s.returned ++ [(s.call.loop data origin).1]
          else s.returned } := by
  simp only [touch, eventDrv, Machine.when, hpc, if_pos (hs.copied data origin hpc),
    Option.map_some, Touch.afterRead]

/-- The reader gets through a read whose wait is over. -/
theorem exec_from_copy {s : Touch} (hpc : s.reader = .copy) (hs : s.InCall) :
    ∃ t, touch.exec s [.readCopy, .readCount] = some t ∧
      ((s.call.loop s.drv.slot s.slotFrom).2 = true →
        (s.call.loop s.drv.slot s.slotFrom).1 ∈ t.returned) := by
  obtain ⟨drv, hdrv, -, -⟩ := drv_readCopy (hs.ready hpc)
  have hcopy : touch.step s .readCopy =
      some { s with drv := drv, reader := .count s.drv.slot s.slotFrom } := by
    simp only [touch, hpc, hdrv, Option.map_some]
  have hcount := step_readCount rfl (inCall_preserved hs trivial hcopy)
  refine ⟨_, (touch.exec_cons_eq_some).mpr ⟨_, hcopy,
    (touch.exec_cons_eq_some).mpr ⟨_, hcount, touch.exec_nil _⟩⟩, fun hdone => ?_⟩
  simp [hdone]

/-- And through a read it has yet to begin; a signal will do to end the wait. -/
theorem exec_from_wait {s : Touch} (hpc : s.reader = .wait) (hs : s.InCall) :
    ∃ t, touch.exec s [.readWait true, .readCopy, .readCount] = some t ∧
      ((s.call.loop s.drv.slot s.slotFrom).2 = true →
        (s.call.loop s.drv.slot s.slotFrom).1 ∈ t.returned) := by
  have hwait : touch.step s (.readWait true) = some
      { s with drv := { s.drv with ready := s.drv.ready + 1 }, reader := .copy } := by
    simp [touch, eventDrv, Machine.when, hpc]
  obtain ⟨t, ht, hret⟩ := exec_from_copy rfl (inCall_preserved hs trivial hwait)
  exact ⟨t, (touch.exec_cons_eq_some).mpr ⟨_, hwait, ht⟩, hret⟩

/-- Wherever the reader is, it can go on to put what is in the slot through the loop, after the
event it is reading now. -/
theorem exec_next_read {s : Touch} (hs : s.InCall) :
    ∃ cs, (∀ c ∈ cs, c.ofReader) ∧ ∃ t, touch.exec s cs = some t ∧
      ((s.afterRead.loop s.drv.slot s.slotFrom).2 = true →
        (s.afterRead.loop s.drv.slot s.slotFrom).1 ∈ t.returned) := by
  cases hpc : s.reader with
  | wait =>
      obtain ⟨t, ht, hret⟩ := exec_from_wait hpc hs
      exact ⟨_, by simp [TouchAction.ofReader], t, ht, by simpa [Touch.afterRead, hpc] using hret⟩
  | copy =>
      obtain ⟨t, ht, hret⟩ := exec_from_copy hpc hs
      exact ⟨_, by simp [TouchAction.ofReader], t, ht, by simpa [Touch.afterRead, hpc] using hret⟩
  | count data origin =>
      have hcount := step_readCount hpc hs
      obtain ⟨t, ht, hret⟩ := exec_from_wait rfl (inCall_preserved hs trivial hcount)
      exact ⟨_, by simp [TouchAction.ofReader], t,
        (touch.exec_cons_eq_some).mpr ⟨_, hcount, ht⟩, hret⟩

/-- **A y beside the x of another position**: the reader that goes on from here returns them. -/
theorem mixed_of_not_matched {s t : Touch} {a : TouchAction} (hs : s.Paired) (ha : ¬ s.Matched a)
    (h : touch.step s a = some t) :
    ∃ cs, (∀ c ∈ cs, c.ofReader) ∧ ∃ u, touch.exec t cs = some u ∧ ¬ u.OnePosition := by
  have hcall : t.InCall := inCall_preserved hs.inCall trivial h
  cases a with
  | viewerCopy =>
      obtain ⟨hy, k, hk, hother⟩ :
          s.viewer.atY = true ∧ ∃ k ∈ s.holding, k + 1 ≠ s.mouse.length := by
        simpa [Touch.Matched] using ha
      obtain ⟨axis, m, drv, hpc, hslot, -, -, rfl⟩ := viewerCopy_of_step h
      obtain rfl : axis = .y := by
        cases axis with
        | x => simp [hpc, ViewerPc.atY] at hy
        | y => rfl
      have hcur : s.mouse[s.mouse.length - 1]? = some m :=
        hs.current m (by simp [hpc, ViewerPc.event])
      obtain ⟨hlen, -⟩ := List.getElem?_eq_some_iff.mp hcur
      obtain ⟨hx, hfrom⟩ : 0 ≤ s.afterRead.x.toInt ∧ s.afterRead.xFrom = some k := by
        rw [Touch.holding] at hk
        split_ifs at hk with hx
        · exact ⟨hx, hk⟩
        · simp at hk
      obtain ⟨cs, hcs, u, hu, hret⟩ := exec_next_read hcall
      refine ⟨cs, hcs, u, hu, fun hone => ?_⟩
      have hpair := hret (by
        simp only [hslot, loop_y]
        exact decide_eq_true hx)
      obtain ⟨j, m', -, hxj, hyj, -, -⟩ := hone _ hpair
      simp only [hslot, loop_y] at hxj hyj
      have hjk : some j = some k := hxj.symm.trans hfrom
      have hjlast : some j = some (s.mouse.length - 1) := hyj.symm
      obtain rfl := Option.some.inj hjk
      have hlast := Option.some.inj hjlast
      omega
  | _ => exact absurd trivial ha

/-! ## Every pair is a position -/

/-- **No touch mixes two mouse positions**, if and only if the run is matched: in every state it
visits, and however the reader goes on from there, each pair that `get_xy` has returned is the
position of one mouse event. -/
theorem onePosition_iff_matched {as : List TouchAction} {s : Touch}
    (h : touch.exec touch.init as = some s) :
    touch.Along Touch.Matched touch.init as ↔
      touch.ThroughoutWith TouchAction.ofReader Touch.OnePosition touch.init as := by
  refine Machine.along_iff_throughoutWith (I := Touch.Paired) paired_preserved
    (fun _ hs => hs.onePosition) (fun s a ha => ?_) (fun s a t hs => mixed_of_not_matched hs)
    paired_init h
  cases a with
  | readWait _ | readCopy | readCount => trivial
  | mouseEvent _ | viewerCopy | viewerCount | usleep => exact absurd ha id

/-- A write of the viewer and one call of `read`. -/
def writeHalf : List TouchAction := [.viewerCopy, .viewerCount]

def readHalf : List TouchAction := [.readWait false, .readCopy, .readCount]

def pressed (x y : BitVec 32) : TouchAction := .mouseEvent ⟨x, y, Vector.replicate 16 0⟩

/-- The reader takes each half before the next one is written. -/
theorem prompt_reader_returns_positions :
    ∃ s, touch.exec touch.init
        (pressed 3 4 :: writeHalf ++ readHalf ++ .usleep :: writeHalf ++ readHalf) = some s ∧
      s.returned.length = 1 ∧ s.OnePosition := by
  obtain ⟨s, hs, hp⟩ := touch.exists_exec touch.init
    (pressed 3 4 :: writeHalf ++ readHalf ++ .usleep :: writeHalf ++ readHalf)
    (fun s => s.returned.length = 1) (by decide +kernel)
  exact ⟨s, hs, hp, ((onePosition_iff_matched hs).mp (by decide +kernel)).last hs⟩

/-- The reader takes the x of (3, 4), is held up while (3, 4) is completed and (5, 6) is written,
and takes the y of (5, 6): `get_xy` returns (3, 6), where the mouse never was. -/
theorem late_reader_mixes_positions :
    ∃ s, touch.exec touch.init
        (pressed 3 4 :: writeHalf ++ readHalf ++ .usleep :: writeHalf ++
          pressed 5 6 :: writeHalf ++ .usleep :: writeHalf ++ readHalf) = some s ∧
      s.returned = [⟨3, 6, some 0, some 1⟩] ∧ ¬ s.OnePosition := by
  obtain ⟨s, hs, hret⟩ := touch.exists_exec touch.init
    (pressed 3 4 :: writeHalf ++ readHalf ++ .usleep :: writeHalf ++
      pressed 5 6 :: writeHalf ++ .usleep :: writeHalf ++ readHalf)
    (fun s => s.returned = [⟨3, 6, some 0, some 1⟩]) (by decide +kernel)
  refine ⟨s, hs, hret, fun hone => ?_⟩
  obtain ⟨k, m, -, hx, hy, -, -⟩ := hone ⟨3, 6, some 0, some 1⟩ (by simp [hret])
  have hzero := Option.some.inj hx
  have honeIndex := Option.some.inj hy
  omega

end CourseDesign.Drivers
