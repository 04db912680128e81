import CourseDesign.Lib.Machine
import CourseDesign.Lib.AllOrNone
import CourseDesign.Lib.Loop
import CourseDesign.Sensor.Coordinator
import Mathlib.Logic.Function.Basic

/-!
# Whole lines on the coordinator's serial port

`SampleApp_MessageMSGCB` writes a sample line in fifteen calls of `HalUARTWrite`, each of which
`HalUARTWriteDMA` (`_hal_uart_dma.c`) takes as a whole or rejects, and looks at none of the results.
The main loop polls the UART and then runs one task, so `HalUARTPollDMA` comes between handlers and
only the interrupt of a finished transfer comes within one.

* `printSample_writes` — a packet with an `X` in it is a line of 55 bytes, in pieces of one to six.
* `foreseen_effect` — what a handler will get accepted is settled when it begins.
* `whole_iff_roomy` — the lines accepted are whole if and only if each one finds room for 55 bytes,
  or none at all.
-/

namespace CourseDesign.Sensor

/-- `HAL_UART_DMA_TX_MAX`, which is `MT_UART_TX_BUFF_MAX` of `OnBoard.h`. -/
def halUartDmaTxMax : ℕ := 128

/-- The transmit side of `dmaCfg`, and whether a transfer is under way. -/
structure UartDma where
  txIdx : Bool → ℕ
  txSel : Bool
  txDMAPending : Bool
  txShdwValid : Bool
  armed : Bool
  txIdx_le : ∀ sel, txIdx sel ≤ halUartDmaTxMax

namespace UartDma

/-- What is left of the selected buffer. -/
def room (d : UartDma) : ℕ := halUartDmaTxMax - d.txIdx d.txSel

/-- `dmaCfg` with another fill of one buffer. -/
def setTxIdx (d : UartDma) (sel : Bool) (n : ℕ) (h : n ≤ halUartDmaTxMax) : UartDma :=
  { d with
    txIdx := Function.update d.txIdx sel n
    txIdx_le := by
      intro sel'
      by_cases hs : sel' = sel
      · rw [hs, Function.update_self]
        exact h
      · rw [Function.update_of_ne hs]
        exact d.txIdx_le sel' }

/-- `HalUARTWriteDMA(buf, len)`: what it returns, and what it leaves behind. -/
def halUARTWriteDMA (d : UartDma) (buf : List UInt8) : ℕ × UartDma :=
  if h : buf.length + d.txIdx d.txSel > halUartDmaTxMax then (0, d)
  else
    let d' := d.setTxIdx d.txSel (d.txIdx d.txSel + buf.length) (by omega)
    (buf.length,
      if d.txIdx (!d.txSel) = 0 then { d' with txDMAPending := true } else d')

/-- `HalUARTIsrDMA`. -/
def halUARTIsrDMA (d : UartDma) : UartDma :=
  let d' := { d.setTxIdx (!d.txSel) 0 (Nat.zero_le _) with txShdwValid := true, armed := false }
  if d.txIdx d.txSel ≠ 0 then { d' with txDMAPending := true } else d'

/-- The transmit part of `HalUARTPollDMA`; `lapsed` says whether the character time since the last
interrupt is over. -/
def halUARTPollDMA (d : UartDma) (lapsed : Bool) : UartDma :=
  let d := if lapsed then { d with txShdwValid := false } else d
  if d.txDMAPending = true ∧ d.txShdwValid = false then
    { d with txDMAPending := false, txSel := !d.txSel, armed := true }
  else if d.txIdx d.txSel ≠ 0 ∧ d.armed = false then d.halUARTIsrDMA
  else d

end UartDma

/-- A call of `SampleApp_MessageMSGCB` under way. -/
structure Handling where
  todo : List Effect
  /-- The bytes of all its writes. -/
  line : List UInt8
  /-- The bytes accepted so far. -/
  accepted : List UInt8
  deriving DecidableEq, Repr

/-- The coordinator.  `lines` records each finished handler's bytes and those of them that were
accepted. -/
structure Serial where
  dma : UartDma
  handler : Option Handling
  lines : List (List UInt8 × List UInt8)

inductive SerialAction where
  | message (pkt : Packet)
  /-- The next call that the handler makes. -/
  | effect
  | ret
  /-- The transfer under way is finished. -/
  | isr
  | poll (lapsed : Bool)
  deriving DecidableEq, Repr

open Machine (when)

/-- The coordinator, from any fill of the buffers on. -/
def serial (dma : UartDma) : Machine Serial SerialAction where
  init := { dma := dma, handler := none, lines := [] }
  step s
    | .message pkt => match s.handler, messageMSGCB pkt with
        | none, .ok effects => some
            { s with
              handler := some { todo := effects, line := lineBytes effects, accepted := [] } }
        | _, _ => none
    | .effect => match s.handler with
        | some ⟨.uartWrite buf :: todo, line, accepted⟩ =>
            let (cnt, dma) := s.dma.halUARTWriteDMA buf
            some { s with dma := dma, handler := some ⟨todo, line, accepted ++ buf.take cnt⟩ }
        | some ⟨.ledBlink .. :: todo, line, accepted⟩ => some
            { s with handler := some ⟨todo, line, accepted⟩ }
        | _ => none
    | .ret => match s.handler with
        | some ⟨[], line, accepted⟩ => some
            { s with handler := none, lines := s.lines ++ [(line, accepted)] }
        | _ => none
    | .isr => when (s.dma.armed = true) { s with dma := s.dma.halUARTIsrDMA }
    | .poll lapsed => when (s.handler = none) { s with dma := s.dma.halUARTPollDMA lapsed }

/-- The byte stream accepted from the handler. -/
def Serial.stream (s : Serial) : List UInt8 := s.lines.flatMap Prod.snd

/-- Every line was accepted entirely or not at all. -/
def Serial.Whole (s : Serial) : Prop := ∀ l ∈ s.lines, l.2 = l.1 ∨ l.2 = []

/-- The packet is a sample of one of the two devices, marked as complete. -/
def Packet.Printed (pkt : Packet) : Prop :=
  (pkt.clusterId = 3 ∨ pkt.clusterId = 4) ∧ pkt.data[36]? = some 0x58

instance (pkt : Packet) : Decidable pkt.Printed := inferInstanceAs (Decidable (_ ∧ _))

/-- A sample finds room for its whole line in the selected buffer, or for not even one byte. -/
def Serial.Roomy (s : Serial) : SerialAction → Prop
  | .message pkt => pkt.Printed → 55 ≤ s.dma.room ∨ s.dma.room = 0
  | _ => True

instance (s : Serial) : DecidablePred s.Roomy
  | .message pkt => inferInstanceAs
      (Decidable (pkt.Printed → 55 ≤ s.dma.room ∨ s.dma.room = 0))
  | .effect | .ret | .isr | .poll _ => isTrue trivial

def SerialAction.ofHandler : SerialAction → Prop
  | .effect | .ret => True
  | _ => False

/-! ## What a handler writes -/

/-- The buffers a handler passes to `HalUARTWrite`. -/
def uartWrites (effects : List Effect) : List (List UInt8) :=
  effects.filterMap fun
    | .uartWrite buf => some buf
    | .ledBlink .. => none

theorem lineBytes_eq_flatten (effects : List Effect) :
    lineBytes effects = (uartWrites effects).flatten := by
  induction effects with
  | nil => rfl
  | cons e effects ih =>
      cases e with
      | uartWrite buf =>
          have hbytes : lineBytes (.uartWrite buf :: effects) = buf ++ lineBytes effects := rfl
          rw [hbytes, ih]
          rfl
      | ledBlink led numBlinks percent period => exact ih

theorem length_of_slice {pkt : Packet} {i n : ℕ} {bs : List UInt8} (h : pkt.slice i n = .ok bs) :
    bs.length = n := by
  induction n generalizing i bs with
  | zero =>
      obtain rfl : [] = bs := Except.ok.inj h
      rfl
  | succ n ih =>
      obtain ⟨b, -, h⟩ := Loop.bind_eq_ok.mp h
      obtain ⟨rest, hrest, h⟩ := Loop.bind_eq_ok.mp h
      obtain rfl : b :: rest = bs := Except.ok.inj h
      rw [List.length_cons, ih hrest]

theorem read_of_getElem? {pkt : Packet} {i : ℕ} {b : UInt8} (h : pkt.read i = .ok b) :
    pkt.data[i]? = some b := by
  rw [Packet.read] at h
  split at h
  · rename_i b' hb
    rw [hb, Except.ok.inj h]
  · cases h

/-- **The writes of one packet**: none without an `X`; with it a line of 55 bytes in fifteen pieces,
of which the last is a single byte. -/
theorem printSample_writes {device : List UInt8} {pkt : Packet} {effects : List Effect}
    (hdevice : device.length = 4) (h : printSample device pkt = .ok effects) :
    if pkt.data[36]? = some 0x58 then
      (uartWrites effects).flatten.length = 55 ∧ (∀ b ∈ uartWrites effects, b ≠ []) ∧
        [0x0A] ∈ uartWrites effects
    else effects = [] := by
  obtain ⟨x, hx, h⟩ := Loop.bind_eq_ok.mp h
  rw [read_of_getElem? hx]
  by_cases hmark : x = 0x58
  · rw [if_pos hmark] at h
    obtain ⟨accX, haccX, h⟩ := Loop.bind_eq_ok.mp h
    obtain ⟨accY, haccY, h⟩ := Loop.bind_eq_ok.mp h
    obtain ⟨accZ, haccZ, h⟩ := Loop.bind_eq_ok.mp h
    obtain ⟨graX, hgraX, h⟩ := Loop.bind_eq_ok.mp h
    obtain ⟨graY, hgraY, h⟩ := Loop.bind_eq_ok.mp h
    obtain ⟨graZ, hgraZ, h⟩ := Loop.bind_eq_ok.mp h
    have heffects := Except.ok.inj h
    have hwrites : uartWrites effects = [device, [0x20, 0x20], accX, [0x20, 0x20], accY,
        [0x20, 0x20], accZ, [0x20, 0x20], graX, [0x20, 0x20], graY, [0x20, 0x20], graZ,
        [0x20, 0x20], [0x0A]] := by
      rw [← heffects]
      rfl
    have hlens : ∀ b ∈ uartWrites effects, 0 < b.length := by
      simp [hwrites, hdevice, length_of_slice haccX, length_of_slice haccY, length_of_slice haccZ,
        length_of_slice hgraX, length_of_slice hgraY, length_of_slice hgraZ]
    rw [if_pos (by rw [hmark])]
    refine ⟨?_, fun b hb => List.ne_nil_of_length_pos (hlens b hb), by simp [hwrites]⟩
    simp [hwrites, hdevice, length_of_slice haccX, length_of_slice haccY, length_of_slice haccZ,
      length_of_slice hgraX, length_of_slice hgraY, length_of_slice hgraZ]
  · rw [if_neg hmark] at h
    rw [if_neg (by simpa using hmark)]
    exact (Except.ok.inj h).symm

/-- The same for any packet that the handler gets through. -/
theorem messageMSGCB_writes {pkt : Packet} {effects : List Effect}
    (h : messageMSGCB pkt = .ok effects) :
    if pkt.Printed then
      (uartWrites effects).flatten.length = 55 ∧ (∀ b ∈ uartWrites effects, b ≠ []) ∧
        [0x0A] ∈ uartWrites effects
    else uartWrites effects = [] := by
  rw [messageMSGCB] at h
  split at h
  · rename_i hc
    have hwrites := printSample_writes rfl h
    by_cases hmark : pkt.data[36]? = some 0x58
    · simpa [Packet.Printed, hc, hmark] using hwrites
    · simp only [hmark, if_false] at hwrites
      simp [Packet.Printed, hmark, hwrites, uartWrites]
  · rename_i hc
    have hwrites := printSample_writes rfl h
    by_cases hmark : pkt.data[36]? = some 0x58
    · simpa [Packet.Printed, hc, hmark] using hwrites
    · simp only [hmark, if_false] at hwrites
      simp [Packet.Printed, hmark, hwrites, uartWrites]
  · rename_i hc
    obtain ⟨lo, -, h⟩ := Loop.bind_eq_ok.mp h
    obtain ⟨hi, -, h⟩ := Loop.bind_eq_ok.mp h
    rw [← Except.ok.inj h]
    simp [Packet.Printed, hc, uartWrites]
  · rename_i h₃ h₄ h₂
    have hsilent : ¬ pkt.Printed := fun hp => hp.1.elim h₃ h₄
    rw [if_neg hsilent, ← Except.ok.inj h]
    rfl

/-! ## What is settled when a handler begins -/

/-- `HalUARTWriteDMA` takes a buffer as an all-or-none write, and leaves the rest of the room. -/
theorem accepted_halUARTWriteDMA (d : UartDma) (buf : List UInt8) (bs : List (List UInt8)) :
    AllOrNone.accepted d.room (buf :: bs) =
      buf.take (d.halUARTWriteDMA buf).1 ++
        AllOrNone.accepted (d.halUARTWriteDMA buf).2.room bs := by
  have hle := d.txIdx_le d.txSel
  by_cases hfull : buf.length + d.txIdx d.txSel > halUartDmaTxMax
  · have hreject : d.halUARTWriteDMA buf = (0, d) := dif_pos hfull
    rw [hreject, AllOrNone.accepted, if_neg (by rw [UartDma.room]; omega)]
    rfl
  · have hcount : (d.halUARTWriteDMA buf).1 = buf.length := by
      rw [UartDma.halUARTWriteDMA, dif_neg hfull]
    have hroom : (d.halUARTWriteDMA buf).2.room = d.room - buf.length := by
      rw [UartDma.halUARTWriteDMA, dif_neg hfull]
      split_ifs <;> simp only [UartDma.room, UartDma.setTxIdx, Function.update_self] <;> omega
    rw [hcount, hroom, List.take_length, AllOrNone.accepted, if_pos (by rw [UartDma.room]; omega)]

/-- The interrupt frees the other buffer. -/
theorem room_halUARTIsrDMA (d : UartDma) : d.halUARTIsrDMA.room = d.room := by
  have hother : d.txSel ≠ !d.txSel := by simp
  rw [UartDma.halUARTIsrDMA]
  split_ifs <;> simp only [UartDma.room, UartDma.setTxIdx, Function.update_of_ne hother]

/-- What the handler under way will have got accepted when it returns. -/
def Serial.foreseen (s : Serial) (c : Handling) : List UInt8 :=
  c.accepted ++ AllOrNone.accepted s.dma.room (uartWrites c.todo)

/-- **What is foreseen does not change** with the calls the handler makes. -/
theorem foreseen_effect {d : UartDma} {s t : Serial} {c : Handling} (hc : s.handler = some c)
    (h : (serial d).step s .effect = some t) :
    ∃ c', t.handler = some c' ∧ c'.line = c.line ∧ t.foreseen c' = s.foreseen c ∧
      t.lines = s.lines ∧ ∃ e, c.todo = e :: c'.todo := by
  simp only [serial] at h
  split at h
  · rename_i buf todo line accepted hpc
    obtain rfl : ⟨.uartWrite buf :: todo, line, accepted⟩ = c := Option.some.inj (hpc ▸ hc)
    obtain rfl := Option.some.inj h
    refine ⟨_, rfl, rfl, ?_, rfl, _, rfl⟩
    have haccept := accepted_halUARTWriteDMA s.dma buf (uartWrites todo)
    have hwrites : uartWrites (.uartWrite buf :: todo) = buf :: uartWrites todo := rfl
    simp only [Serial.foreseen, hwrites, haccept, List.append_assoc]
  · rename_i led numBlinks percent period todo line accepted hpc
    obtain rfl : ⟨.ledBlink led numBlinks percent period :: todo, line, accepted⟩ = c :=
      Option.some.inj (hpc ▸ hc)
    obtain rfl := Option.some.inj h
    exact ⟨_, rfl, rfl, rfl, rfl, _, rfl⟩
  · cases h

/-- Every line is whole, and so will be the one under way. -/
structure Serial.Settled (s : Serial) : Prop where
  whole : s.Whole
  call : ∀ c, s.handler = some c → s.foreseen c = c.line ∨ s.foreseen c = []

/-- A line comes out whole if and only if there is room for all of it or for none. -/
theorem foreseen_whole_iff {d : UartDma} {pkt : Packet} {effects : List Effect}
    (h : messageMSGCB pkt = .ok effects) :
    (AllOrNone.accepted d.room (uartWrites effects) = lineBytes effects ∨
        AllOrNone.accepted d.room (uartWrites effects) = []) ↔
      (pkt.Printed → 55 ≤ d.room ∨ d.room = 0) := by
  have hwrites := messageMSGCB_writes h
  rw [lineBytes_eq_flatten]
  by_cases hprinted : pkt.Printed
  · rw [if_pos hprinted] at hwrites
    obtain ⟨hlen, hne, hlast⟩ := hwrites
    rw [AllOrNone.whole_or_none_iff hne, hlen]
    have hnone : (∀ b ∈ uartWrites effects, d.room < b.length) ↔ d.room = 0 := by
      constructor
      · intro hall
        have hone := hall _ hlast
        simpa using hone
      · intro hzero b hb
        rw [hzero]
        exact List.length_pos_iff.mpr (hne b hb)
    rw [hnone]
    exact ⟨fun hroom _ => hroom, fun hroom => hroom hprinted⟩
  · rw [if_neg hprinted] at hwrites
    simp [hwrites, hprinted, AllOrNone.accepted]

/-- A packet is taken only between handlers. -/
theorem step_message {d : UartDma} {s t : Serial} {pkt : Packet}
    (h : (serial d).step s (.message pkt) = some t) :
    ∃ effects, messageMSGCB pkt = .ok effects ∧ s.handler = none ∧
      t = { s with handler := some ⟨effects, lineBytes effects, []⟩ } := by
  simp only [serial] at h
  split at h
  · rename_i effects hidle hok
    exact ⟨effects, hok, hidle, (Option.some.inj h).symm⟩
  · cases h

/-- **Step lemma.** -/
theorem settled_serial (d : UartDma) : (serial d).Preserves Serial.Roomy Serial.Settled := by
  intro s a t hs ha h
  cases a with
  | message pkt =>
      obtain ⟨effects, hok, -, rfl⟩ := step_message h
      refine ⟨hs.whole, fun c hc => ?_⟩
      obtain rfl := Option.some.inj hc
      exact (foreseen_whole_iff hok).mpr ha
  | effect =>
      cases hc : s.handler with
      | none => simp [serial, hc] at h
      | some c =>
          obtain ⟨c', hc', hline, hforeseen, hlines, -⟩ := foreseen_effect hc h
          refine ⟨fun l hl => hs.whole l (hlines ▸ hl), fun c₂ hc₂ => ?_⟩
          obtain rfl : c' = c₂ := Option.some.inj (hc'.symm.trans hc₂)
          rw [hforeseen, hline]
          exact hs.call c hc
  | ret =>
      simp only [serial] at h
      split at h
      · rename_i line accepted hc
        obtain rfl := Option.some.inj h
        refine ⟨fun l hl => ?_, fun c hc' => by cases hc'⟩
        rcases List.mem_append.mp hl with hl | hl
        · exact hs.whole l hl
        · obtain rfl := List.mem_singleton.mp hl
          simpa [Serial.foreseen, uartWrites, AllOrNone.accepted] using hs.call _ hc
      · cases h
  | isr =>
      obtain ⟨-, rfl⟩ := Machine.when_eq_some.mp h
      refine ⟨hs.whole, fun c hc => ?_⟩
      simpa only [Serial.foreseen, room_halUARTIsrDMA] using hs.call c hc
  | poll lapsed =>
      obtain ⟨hidle, rfl⟩ := Machine.when_eq_some.mp h
      refine ⟨hs.whole, fun c hc => ?_⟩
      simp [hidle] at hc

/-- The handler runs to its end, and what was foreseen is what it got accepted. -/
theorem handler_returns (d : UartDma) {s : Serial} {c : Handling} (hc : s.handler = some c) :
    ∃ cs, (∀ a ∈ cs, a.ofHandler) ∧ ∃ t, (serial d).exec s cs = some t ∧
      (c.line, s.foreseen c) ∈ t.lines := by
  obtain ⟨todo, line, accepted⟩ := c
  induction todo generalizing s accepted with
  | nil =>
      have hret : (serial d).step s .ret =
          some { s with handler := none, lines := s.lines ++ [(line, accepted)] } := by
        simp only [serial, hc]
      refine ⟨[.ret], by simp [SerialAction.ofHandler], _,
        ((serial d).exec_cons_eq_some).mpr ⟨_, hret, (serial d).exec_nil _⟩, ?_⟩
      simp [Serial.foreseen, uartWrites, AllOrNone.accepted]
  | cons e todo ih =>
      obtain ⟨t, ht⟩ : ∃ t, (serial d).step s .effect = some t := by
        cases e <;> simp [serial, hc]
      obtain ⟨⟨todo', line', accepted'⟩, hc', hline, hforeseen, -, e', htodo⟩ :=
        foreseen_effect hc ht
      obtain rfl : line' = line := hline
      obtain rfl : todo = todo' := (List.cons.inj htodo).2
      obtain ⟨cs, hcs, u, hu, hmem⟩ := ih accepted' hc'
      refine ⟨.effect :: cs, ?_, u, ((serial d).exec_cons_eq_some).mpr ⟨t, ht, hu⟩, ?_⟩
      · intro a ha
        rcases List.mem_cons.mp ha with rfl | ha
        · trivial
        · exact hcs a ha
      · rw [← hforeseen]
        exact hmem

/-! ## Whole lines -/

/-- A stream of whole lines is the concatenation of those that were accepted. -/
theorem stream_of_whole {lines : List (List UInt8 × List UInt8)}
    (h : ∀ l ∈ lines, l.2 = l.1 ∨ l.2 = []) :
    lines.flatMap Prod.snd = (lines.filter fun l => l.2 = l.1).flatMap Prod.fst := by
  induction lines with
  | nil => rfl
  | cons l lines ih =>
      have hrest := ih fun k hk => h k (by simp [hk])
      rw [List.flatMap_cons, hrest]
      by_cases heq : l.2 = l.1
      · simp [heq]
      · have hnone : l.2 = [] := (h l (by simp)).resolve_left heq
        rw [List.filter_cons_of_neg (by simpa using heq), hnone, List.nil_append]

/-- **Whole lines on the serial port.**  From any fill of the buffers, every line is accepted
entirely or not at all, in every state of the run and once the handler under way has returned, if
and only if each sample finds room for 55 bytes in the selected buffer or for none; and then the
stream is the concatenation of the lines that were accepted. -/
theorem whole_iff_roomy {d : UartDma} {as : List SerialAction} {s : Serial}
    (h : (serial d).exec (serial d).init as = some s) :
    ((serial d).Along Serial.Roomy (serial d).init as ↔
        (serial d).ThroughoutWith SerialAction.ofHandler Serial.Whole (serial d).init as) ∧
      ((serial d).Along Serial.Roomy (serial d).init as →
        s.stream = (s.lines.filter fun l => l.2 = l.1).flatMap Prod.fst) := by
  have hinit : (serial d).init.Settled :=
    ⟨by simp [serial, Serial.Whole], fun c hc => by simp [serial] at hc⟩
  constructor
  · refine Machine.along_iff_throughoutWith (I := Serial.Settled) (settled_serial d)
      (fun _ hs => hs.whole) (fun s a ha => ?_) (fun s a t _ ha hstep => ?_) hinit h
    · cases a with
      | effect | ret => trivial
      | message _ | isr | poll _ => exact absurd ha id
    · cases a with
      | message pkt =>
          obtain ⟨effects, hok, -, rfl⟩ := step_message hstep
          obtain ⟨cs, hcs, u, hu, hmem⟩ := handler_returns d
            (s := { s with handler := some ⟨effects, lineBytes effects, []⟩ }) rfl
          refine ⟨cs, hcs, u, hu, fun hwhole => ha ?_⟩
          exact (foreseen_whole_iff hok).mp (hwhole _ hmem)
      | _ => exact absurd trivial ha
  · intro hal
    exact stream_of_whole (Machine.exec_of_preserves (settled_serial d) hinit hal h).whole

/-- The coordinator with `n` bytes in the selected buffer and nothing under way. -/
def serialFilled (n : ℕ) (h : n ≤ halUartDmaTxMax) : Machine Serial SerialAction :=
  serial
    { txIdx := fun sel => if sel then 0 else n
      txSel := false
      txDMAPending := n ≠ 0
      txShdwValid := false
      armed := false
      txIdx_le := fun sel => by
        split_ifs
        · exact Nat.zero_le _
        · exact h }

/-- A sample of the first end device, with six equal fields. -/
def zeroSample : Packet := ⟨3, List.replicate 36 0x30 ++ [0x58]⟩

/-- The packet is received and its handler returns. -/
def handleSample : List SerialAction :=
  .message zeroSample :: List.replicate 16 .effect ++ [.ret]

/-- Into an empty buffer the line goes whole. -/
theorem empty_buffer_takes_line :
    let M := serialFilled 0 (by decide)
    ∃ s, M.exec M.init handleSample = some s ∧ s.stream.length = 55 ∧ s.Whole := by
  intro M
  obtain ⟨s, hs, hp⟩ := M.exists_exec M.init handleSample (fun s => s.stream.length = 55)
    (by decide +kernel)
  exact ⟨s, hs, hp, ((whole_iff_roomy hs).1.mp (by decide +kernel)).last hs⟩

instance (s : Serial) : Decidable s.Whole :=
  inferInstanceAs (Decidable (∀ l ∈ s.lines, l.2 = l.1 ∨ l.2 = []))

/-- With 100 bytes waiting the line ends after its third field.  With 127 bytes waiting nothing but
the newline is accepted. -/
theorem full_buffer_cuts_line :
    (let M := serialFilled 100 (by decide)
      ∃ s, M.exec M.init handleSample = some s ∧
        s.stream = [0x45, 0x44, 0x31, 0x3A, 0x20, 0x20] ++ List.replicate 6 0x30 ++ [0x20, 0x20] ++
          List.replicate 6 0x30 ++ [0x20, 0x20] ++ List.replicate 6 0x30 ∧
        ¬ s.Whole) ∧
      let M := serialFilled 127 (by decide)
      ∃ s, M.exec M.init handleSample = some s ∧ s.stream = [0x0A] ∧ ¬ s.Whole := by
  constructor
  · intro M
    exact M.exists_exec M.init handleSample (fun s => s.stream =
      [0x45, 0x44, 0x31, 0x3A, 0x20, 0x20] ++ List.replicate 6 0x30 ++ [0x20, 0x20] ++
        List.replicate 6 0x30 ++ [0x20, 0x20] ++ List.replicate 6 0x30 ∧ ¬ s.Whole)
      (by decide +kernel)
  · intro M
    exact M.exists_exec M.init handleSample (fun s => s.stream = [0x0A] ∧ ¬ s.Whole)
      (by decide +kernel)

end CourseDesign.Sensor
