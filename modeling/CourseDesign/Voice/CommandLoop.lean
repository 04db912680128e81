import CourseDesign.Lib.Machine
import CourseDesign.Lib.Decimal
import CourseDesign.Voice.ReplyParser

/-!
# Replies of earlier rounds

The command loop of the voice client clears `Voice` after every round, and `recvbuf` never: a reply
shorter than an earlier one lies on top of what is left of it.

* `SelfContained` — the replies in which `Extraction` never gets to the bytes after them, and keeps
  to its arrays.
* `isolated_iff_selfContained` — exactly for these, what a round does is independent of the replies
  of earlier rounds.
-/

namespace CourseDesign.Voice

/-! ## The loop -/

/-- The branches of `Operate`, in their order. -/
inductive Command where
  | turnOn | stopPlay | turnOff | playmusic | playmusicCtrl | nextPic | lastPic | hello | handsome
  | video
  deriving DecidableEq, Repr

/-- The number each branch compares `Voice_ID` with. -/
def Command.number : Command → ℕ
  | .turnOn => 1
  | .turnOff => 2
  | .nextPic => 3
  | .lastPic => 4
  | .playmusicCtrl => 5
  | .hello => 7
  | .video => 8
  | .playmusic => 9
  | .handsome => 11
  | .stopPlay => 12

/-- `strcmp(Voice_ID, id) == 0` for the digits of a number; no such `id` is as long as `Voice_ID`.
-/
def strcmpEq (voiceID : List UInt8) (number : ℕ) : Bool :=
  (Decimal.text number ++ [0]).isPrefixOf voiceID

/-- `Operate`: the branches taken. -/
def operate (voiceID : List UInt8) : List Command :=
  [.turnOn, .stopPlay, .turnOff, .playmusic, .playmusicCtrl, .nextPic, .lastPic, .hello, .handsome,
    .video].filter fun c => strcmpEq voiceID c.number

def noVoice : List UInt8 := List.replicate 10 0

/-- `recv` into `recvbuf`. -/
def receive (recvbuf bytes : List UInt8) : List UInt8 := bytes ++ recvbuf.drop bytes.length

/-- The arrays of `main`, and whether the loop was left. -/
structure Client where
  recvbuf : List UInt8
  voice : List UInt8
  ended : Bool
  deriving DecidableEq, Repr

/-- What a round does with a reply. -/
structure Round where
  voice : List UInt8
  branches : List Command
  exits : Bool
  deriving DecidableEq, Repr

/-- `Extraction`, `Operate` and the comparison with `Exit`. -/
def Client.round (s : Client) (bytes : List UInt8) : Except Fault Round := do
  let voice ← extraction (receive s.recvbuf bytes) s.voice
  return ⟨voice, operate voice, strcmpEq voice 999⟩

/-- The loop: a label is what `recv` returns, `none` for an error.  A round that leaves an array
leads nowhere. -/
def commandLoop : Machine Client (Option (List UInt8)) where
  init := { recvbuf := List.replicate recvMaxSize 0, voice := noVoice, ended := false }
  step s
    | none => Machine.when (s.ended = false) { s with ended := true }
    | some bytes =>
        if s.ended = false ∧ bytes.length ≤ recvMaxSize then
          match s.round bytes with
          | .ok r => some
              { recvbuf := receive s.recvbuf bytes
                voice := if r.exits then r.voice else noVoice
                ended := r.exits }
          | .error _ => none
        else none

/-- **Isolation of a reply**: any two runs of equal length that both go on give the same round for
it, whatever they received before.  A round that leaves an array is no outcome: what it does depends
on the memory around. -/
def Isolated (bytes : List UInt8) : Prop :=
  ∀ hs₁ hs₂ s₁ s₂, hs₁.length = hs₂.length → commandLoop.exec commandLoop.init hs₁ = some s₁ →
    commandLoop.exec commandLoop.init hs₂ = some s₂ → s₁.ended = false → s₂.ended = false →
    ∃ r, s₁.round bytes = .ok r ∧ s₂.round bytes = .ok r

/-- A reply with an `id=`, a quote behind the byte after it, and no more than ten bytes up to there
if that byte is a quote too; or a reply without an `id=` that fills `recvbuf` and does not end in
the middle of one. -/
def SelfContained (bytes : List UInt8) : Prop :=
  match firstId bytes with
  | some i => 0x22 ∈ bytes.drop (i + 4) ∧
      (bytes[i + 3]? = some 0x22 → (bytes.drop (i + 4)).idxOf 0x22 ≤ 10)
  | none => bytes.length = recvMaxSize ∧ ¬ EndsInId bytes

/-! ## The state between rounds -/

/-- `recvbuf` keeps its size, and `Voice` is zero at the start of a round. -/
def Client.Ready (s : Client) : Prop :=
  s.recvbuf.length = recvMaxSize ∧ (s.ended = false → s.voice = noVoice)

theorem length_receive {recvbuf bytes : List UInt8} (hbuf : recvbuf.length = recvMaxSize)
    (h : bytes.length ≤ recvMaxSize) : (receive recvbuf bytes).length = recvMaxSize := by
  rw [receive, List.length_append, List.length_drop]
  omega

theorem ready_preserved : commandLoop.Preserves (fun _ _ => True) Client.Ready := by
  rintro s a t ⟨hlen, -⟩ - h
  cases a with
  | none =>
      obtain ⟨-, rfl⟩ := Machine.when_eq_some.mp h
      exact ⟨hlen, fun hover => absurd hover (by simp)⟩
  | some bytes =>
      simp only [commandLoop] at h
      split at h
      · rename_i hcond
        split at h
        · rename_i r hr
          obtain rfl := Option.some.inj h
          refine ⟨length_receive hlen hcond.2, fun hover => ?_⟩
          have hexit : r.exits = false := hover
          simp [hexit]
        · cases h
      · cases h

theorem ready_exec {hs : List (Option (List UInt8))} {s : Client}
    (h : commandLoop.exec commandLoop.init hs = some s) : s.Ready :=
  Machine.exec_of_preserves ready_preserved ⟨by simp [commandLoop], fun _ => rfl⟩
    (Machine.along_of_forall (fun _ _ => trivial) _) h

/-- A round is what `Extraction` makes of it. -/
theorem round_eq_ok_iff {s : Client} {bytes : List UInt8} {r : Round} (h : s.voice = noVoice) :
    s.round bytes = .ok r ↔ extraction (receive s.recvbuf bytes) noVoice = .ok r.voice ∧
      r = ⟨r.voice, operate r.voice, strcmpEq r.voice 999⟩ := by
  rw [Client.round, h]
  cases extraction (receive s.recvbuf bytes) noVoice with
  | ok voice =>
      constructor
      · intro hr
        obtain rfl := Except.ok.inj hr
        exact ⟨rfl, rfl⟩
      · rintro ⟨hvoice, hr⟩
        rw [hr, ← Except.ok.inj hvoice]
        rfl
  | error f => exact ⟨fun hr => (nomatch hr), fun hr => (nomatch hr.1)⟩

/-! ## Replies that are self-contained -/

/-- The branch of an `id=` whose quotes are all there. -/
theorem extractAt_closed {bytes : List UInt8} {i : ℕ} (hat : idAt bytes i = true)
    (hquote : 0x22 ∈ bytes.drop (i + 4))
    (hfit : bytes[i + 3]? = some 0x22 → (bytes.drop (i + 4)).idxOf 0x22 ≤ 10) :
    ∃ voice, extractAt bytes noVoice i = .ok voice := by
  by_cases hattached : bytes[i + 3]? = some 0x22
  · have hidx := List.idxOf_lt_length_of_mem hquote
    rw [List.length_drop] at hidx
    rw [extractAt_attached _ hat hattached hquote, copyId_eq (by omega) (Nat.zero_le _), noVoice,
      List.length_replicate, Nat.zero_add, if_pos (hfit hattached)]
    exact ⟨_, rfl⟩
  · exact ⟨noVoice, extractAt_detached _ hat hattached hquote⟩

/-- **A self-contained reply** is read the same way over any old contents. -/
theorem extraction_of_selfContained {bytes : List UInt8} (hself : SelfContained bytes)
    (hlen : bytes.length ≤ recvMaxSize) : ∃ voice, ∀ buf : List UInt8, buf.length = recvMaxSize →
      extraction (receive buf bytes) noVoice = .ok voice := by
  rw [SelfContained] at hself
  cases hid : firstId bytes with
  | some i =>
      rw [hid] at hself
      obtain ⟨hquote, hfit⟩ := hself
      obtain ⟨voice, hvoice⟩ := extractAt_closed (firstId_eq_some hid).1 hquote hfit
      refine ⟨voice, fun buf _ => ?_⟩
      rw [receive, extraction_firstId hid hlen, extractAt_append hquote, hvoice]
  | none =>
      rw [hid] at hself
      obtain ⟨hfull, hends⟩ := hself
      refine ⟨noVoice, fun buf hbuf => ?_⟩
      rw [receive, hfull, ← hbuf, List.drop_length, List.append_nil, extraction_none hfull hid,
        if_neg hends]

/-! ## Replies that are not -/

/-- Past a reply without an `id=`, the loop goes on through zeros up to the next byte `b`, if that
byte cannot complete an `id=` begun in the reply. -/
theorem extraction_past {bytes : List UInt8} {b : UInt8} (z : ℕ) (rest : List UInt8)
    (hno : firstId bytes = none) (hz : bytes.length + z ≤ 1024)
    (hb : (List.replicate z 0 ++ rest)[0]? = some b) (hd : b ≠ 0x64) (he : b ≠ 0x3D) :
    extraction (bytes ++ (List.replicate z 0 ++ rest)) noVoice =
      scan (bytes ++ (List.replicate z 0 ++ rest)) noVoice (bytes.length + z)
        (1024 - (bytes.length + z)) := by
  refine scan_skip hz fun j hj => ?_
  have hjunction : (bytes ++ (List.replicate z 0 ++ rest))[bytes.length]? = some b := by
    rw [List.getElem?_append_right (le_refl _), Nat.sub_self, hb]
  rcases Nat.lt_or_ge j bytes.length with hlt | hge
  · rcases Nat.lt_or_ge (j + 2) bytes.length with hin | hout
    · rw [isId_eq (by rw [List.length_append]; omega), idAt_append hin, firstId_eq_none hno]
    · rcases Nat.lt_or_ge (j + 1) bytes.length with hlast | hlast
      · have hpos : j + 2 = bytes.length := by omega
        exact isId_of_byte (Or.inr (Or.inr ⟨hpos ▸ hjunction, he⟩))
      · have hpos : j + 1 = bytes.length := by omega
        exact isId_of_byte (Or.inr (Or.inl ⟨hpos ▸ hjunction, hd⟩))
  · have hzero : (bytes ++ (List.replicate z 0 ++ rest))[j]? = some 0 := by
      have hin : j - bytes.length < z := by omega
      rw [List.getElem?_append_right hge, List.getElem?_append_left (by simpa using hin),
        List.getElem?_replicate, if_pos hin]
    exact isId_of_byte (Or.inl ⟨hzero, by decide⟩)

/-- Over zeros, such a reply gives no ID. -/
theorem extraction_over_zeros {bytes : List UInt8} (hno : firstId bytes = none)
    (hlen : bytes.length < 1024) :
    extraction (bytes ++ List.replicate (1024 - bytes.length) 0) noVoice = .ok noVoice := by
  have hfirst : (List.replicate (1024 - bytes.length) (0 : UInt8) ++ [])[0]? = some 0 := by
    rw [List.append_nil, List.getElem?_replicate, if_pos (by omega)]
  have hpast := extraction_past _ [] hno (by omega) hfirst (by decide) (by decide)
  rw [List.append_nil] at hpast
  have hall : bytes.length + (1024 - bytes.length) = 1024 := by omega
  rw [hpast, hall]
  rfl

def idOne : List UInt8 := [0x69, 0x64, 0x3D, 0x22, 0x31, 0x22]

/-- The first byte after zeros that lead up to an `i`. -/
theorem head_zeros_then_i (z : ℕ) (rest : List UInt8) :
    ∃ b, (List.replicate z 0 ++ 0x69 :: rest)[0]? = some b ∧ b ≠ 0x64 ∧ b ≠ 0x3D := by
  cases z with
  | zero => exact ⟨0x69, rfl, by decide, by decide⟩
  | succ z => exact ⟨0, rfl, by decide, by decide⟩

/-- Over an old `id="1"` in the last bytes of `recvbuf`, it gives that ID. -/
theorem extraction_over_idOne {bytes : List UInt8} (hno : firstId bytes = none)
    (hlen : bytes.length ≤ 1018) :
    extraction (bytes ++ (List.replicate (1018 - bytes.length) 0 ++ idOne)) noVoice =
      .ok (0x31 :: List.replicate 9 0) := by
  obtain ⟨b, hb, hd, he⟩ := head_zeros_then_i (1018 - bytes.length) idOne.tail
  have hpast := extraction_past _ idOne hno (by omega) hb hd he
  have hat : bytes.length + (1018 - bytes.length) = 1018 := by omega
  rw [hpast, hat]
  generalize hpre : bytes ++ List.replicate (1018 - bytes.length) 0 = pre
  have hprelen : pre.length = 1018 := by
    rw [← hpre, List.length_append, List.length_replicate, hat]
  rw [← List.append_assoc, hpre]
  have htotal : (pre ++ idOne).length = 1024 := by
    rw [List.length_append, hprelen]
    rfl
  have hdrop : ∀ k, (pre ++ idOne).drop (1018 + k) = idOne.drop k := by
    intro k
    rw [← hprelen, List.drop_append]
    simp
  have hid : isId (pre ++ idOne) 1018 = .ok true := by
    rw [isId_eq (by omega), idAt, show (1018 : ℕ) = 1018 + 0 from rfl, hdrop]
    rfl
  have hbranch : extractAt (pre ++ idOne) noVoice 1018 = .ok (0x31 :: List.replicate 9 0) := by
    have heq := extractAt_eq noVoice (show 1018 + 4 ≤ (pre ++ idOne).length by omega)
    have hq : (idOne.drop 4).idxOf 0x22 = 1 := by decide
    have hp : (idOne.drop 0).idxOf 0x22 = 3 := by decide
    have hdrop0 : (pre ++ idOne).drop 1018 = idOne.drop 0 := hdrop 0
    rw [hdrop 4, hdrop0, hq, hp, if_pos (by decide)] at heq
    rw [heq, copyId_eq (by omega) (Nat.zero_le _), hdrop 4]
    rfl
  rw [scan, hid]
  exact hbranch

/-- Over an old `i` in the very last byte, the look-ahead leaves `recvbuf`. -/
theorem extraction_over_i {bytes : List UInt8} (hno : firstId bytes = none)
    (hlen : bytes.length ≤ 1023) :
    extraction (bytes ++ (List.replicate (1023 - bytes.length) 0 ++ [0x69])) noVoice =
      .error (.readOutside 1024) := by
  obtain ⟨b, hb, hd, he⟩ := head_zeros_then_i (1023 - bytes.length) []
  have hpast := extraction_past _ [0x69] hno (by omega) hb hd he
  have hat : bytes.length + (1023 - bytes.length) = 1023 := by omega
  rw [hpast, hat]
  generalize hpre : bytes ++ List.replicate (1023 - bytes.length) 0 = pre
  have hprelen : pre.length = 1023 := by
    rw [← hpre, List.length_append, List.length_replicate, hat]
  rw [← List.append_assoc, hpre]
  have hi : readBuf (pre ++ [0x69]) 1023 = .ok 0x69 := by
    rw [readBuf, List.getElem?_append_right (by omega), hprelen]
    rfl
  have hnext : readBuf (pre ++ [0x69]) 1024 = .error (.readOutside 1024) := by
    rw [readBuf, List.getElem?_eq_none (by simp [hprelen])]
  rw [scan, isId, hi, hnext]
  rfl

/-! ## Two histories -/

def clearBuf : List UInt8 := List.replicate recvMaxSize 0

theorem length_clearBuf : clearBuf.length = recvMaxSize := List.length_replicate

/-- A first reply that gives an ID other than `Exit` leaves the loop running. -/
theorem exec_first {bytes voice : List UInt8} (hlen : bytes.length ≤ recvMaxSize)
    (hok : extraction (receive clearBuf bytes) noVoice = .ok voice)
    (hexit : strcmpEq voice 999 = false) :
    ∃ s, commandLoop.exec commandLoop.init [some bytes] = some s ∧
      s.recvbuf = receive clearBuf bytes ∧ s.ended = false := by
  have hround : commandLoop.init.round bytes = .ok ⟨voice, operate voice, false⟩ := by
    rw [Client.round, show commandLoop.init.recvbuf = clearBuf from rfl,
      show commandLoop.init.voice = noVoice from rfl, hok, ← hexit]
    rfl
  have hstep : commandLoop.step commandLoop.init (some bytes) =
      some { recvbuf := receive clearBuf bytes, voice := noVoice, ended := false } := by
    show (if _ then _ else _) = _
    rw [if_pos ⟨rfl, hlen⟩, hround]
    rfl
  exact ⟨_, (commandLoop.exec_cons_eq_some).mpr ⟨_, hstep, rfl⟩, rfl, rfl⟩

/-- A run after which the reply leads out of an array. -/
theorem not_isolated_of_fault {bytes : List UInt8} (hs : List (Option (List UInt8))) {s : Client}
    {f : Fault} (hexec : commandLoop.exec commandLoop.init hs = some s) (hover : s.ended = false)
    (hfault : extraction (receive s.recvbuf bytes) noVoice = .error f) : ¬ Isolated bytes := by
  intro hiso
  obtain ⟨r, hround, -⟩ := hiso hs hs s s rfl hexec hexec hover hover
  rw [round_eq_ok_iff ((ready_exec hexec).2 hover), hfault] at hround
  exact nomatch hround.1

/-- Two first replies after which the same bytes are read differently. -/
theorem not_isolated {bytes a b va vb : List UInt8}
    (ha : a.length ≤ recvMaxSize) (hva : extraction (receive clearBuf a) noVoice = .ok va)
    (hea : strcmpEq va 999 = false)
    (hb : b.length ≤ recvMaxSize) (hvb : extraction (receive clearBuf b) noVoice = .ok vb)
    (heb : strcmpEq vb 999 = false)
    (hne : extraction (receive (receive clearBuf a) bytes) noVoice ≠
      extraction (receive (receive clearBuf b) bytes) noVoice) : ¬ Isolated bytes := by
  intro hiso
  obtain ⟨s, hs, hsbuf, hsover⟩ := exec_first ha hva hea
  obtain ⟨t, ht, htbuf, htover⟩ := exec_first hb hvb heb
  obtain ⟨r, hrs, hrt⟩ := hiso [some a] [some b] s t rfl hs ht hsover htover
  rw [round_eq_ok_iff ((ready_exec hs).2 hsover), hsbuf] at hrs
  rw [round_eq_ok_iff ((ready_exec ht).2 htover), htbuf] at hrt
  exact hne (hrs.1.trans hrt.1.symm)

theorem receive_clear (bytes : List UInt8) :
    receive clearBuf bytes = bytes ++ List.replicate (1024 - bytes.length) 0 := by
  rw [receive, clearBuf, List.drop_replicate]
  rfl

theorem receive_full {bytes : List UInt8} (h : bytes.length = recvMaxSize) :
    receive clearBuf bytes = bytes := by
  rw [receive, h, clearBuf, List.drop_replicate, Nat.sub_self, List.replicate_zero, List.append_nil]

/-- The reply of one zero byte: it leaves `recvbuf` clear and gives no ID. -/
theorem clear_reply :
    receive clearBuf [0] = clearBuf ∧ extraction (receive clearBuf [0]) noVoice = .ok noVoice := by
  rw [receive_clear]
  exact ⟨rfl, extraction_over_zeros (by decide) (by decide)⟩

/-- A first reply that fills `recvbuf`, after which the bytes are read differently than over zeros.
-/
theorem not_isolated_after {bytes old voice : List UInt8} (hold : old.length = recvMaxSize)
    (hvoice : extraction old noVoice = .ok voice) (hexit : strcmpEq voice 999 = false)
    (hne : extraction (bytes ++ List.replicate (1024 - bytes.length) 0) noVoice ≠
      extraction (receive old bytes) noVoice) : ¬ Isolated bytes := by
  obtain ⟨hclear, hclearok⟩ := clear_reply
  have hnone : strcmpEq noVoice 999 = false := by decide
  refine not_isolated (by decide) hclearok hnone (le_of_eq hold) ?_ hexit ?_
  · rw [receive_full hold]
    exact hvoice
  · rw [hclear, receive_clear, receive_full hold]
    exact hne

/-- `id="1"` at the very end. -/
def lateId : List UInt8 := List.replicate 1018 0 ++ idOne

/-- `id="1"` at the start, and an `i` in the last byte. -/
def earlyId : List UInt8 := idOne ++ (List.replicate 1017 0 ++ [0x69])

theorem length_lateId : lateId.length = recvMaxSize := by
  rw [lateId, List.length_append, List.length_replicate]
  rfl

theorem length_earlyId : earlyId.length = recvMaxSize := by
  rw [earlyId, List.length_append, List.length_append, List.length_replicate]
  rfl

theorem extraction_lateId : extraction lateId noVoice = .ok (0x31 :: List.replicate 9 0) := by
  have hnil : firstId [] = none := rfl
  have hover := extraction_over_idOne hnil (Nat.zero_le _)
  rwa [List.length_nil, Nat.sub_zero, List.nil_append] at hover

theorem extraction_earlyId : extraction earlyId noVoice = .ok (0x31 :: List.replicate 9 0) := by
  have hfirst : firstId idOne = some 0 := by decide
  rw [earlyId, extraction_firstId hfirst (by decide), extractAt_append (by decide)]
  rfl

/-- What is left of these two under a reply. -/
theorem receive_lateId {bytes : List UInt8} (hlen : bytes.length ≤ 1018) :
    receive lateId bytes = bytes ++ (List.replicate (1018 - bytes.length) 0 ++ idOne) := by
  rw [receive, lateId, List.drop_append_of_le_length (by rw [List.length_replicate]; exact hlen),
    List.drop_replicate]

theorem receive_earlyId {bytes : List UInt8} (hlo : 6 ≤ bytes.length) (hhi : bytes.length ≤ 1023) :
    receive earlyId bytes = bytes ++ (List.replicate (1023 - bytes.length) 0 ++ [0x69]) := by
  have hlen : idOne.length = 6 := rfl
  have hcount : 1017 - (bytes.length - 6) = 1023 - bytes.length := by omega
  rw [receive, earlyId, List.drop_append, List.drop_eq_nil_of_le (by omega), List.nil_append, hlen,
    List.drop_append_of_le_length (by rw [List.length_replicate]; omega), List.drop_replicate, hcount]

/-- An `id=` whose branch leads out of the arrays. -/
theorem not_isolated_of_branch {bytes : List UInt8} {i : ℕ} (hlen : bytes.length ≤ recvMaxSize)
    (hid : firstId bytes = some i) (hopen : ¬ (0x22 ∈ bytes.drop (i + 4) ∧
      (bytes[i + 3]? = some 0x22 → (bytes.drop (i + 4)).idxOf 0x22 ≤ 10))) : ¬ Isolated bytes := by
  have hat := (firstId_eq_some hid).1
  have hroom := lt_of_idAt hat
  have hclear : receive commandLoop.init.recvbuf bytes = receive clearBuf bytes := rfl
  by_cases hquote : 0x22 ∈ bytes.drop (i + 4)
  · obtain ⟨hattached, hlong⟩ : bytes[i + 3]? = some 0x22 ∧
        10 < (bytes.drop (i + 4)).idxOf 0x22 := by
      by_contra hfit
      exact hopen ⟨hquote, fun hattached => not_lt.mp fun hlong => hfit ⟨hattached, hlong⟩⟩
    have hidx := List.idxOf_lt_length_of_mem hquote
    rw [List.length_drop] at hidx
    refine not_isolated_of_fault [] (f := .writeOutside 10) rfl rfl ?_
    rw [hclear, receive, extraction_firstId hid hlen, extractAt_append hquote,
      extractAt_attached _ hat hattached hquote, copyId_eq (by omega) (Nat.zero_le _), noVoice,
      List.length_replicate, Nat.zero_add, if_neg (by omega)]
  · refine not_isolated_of_fault [] (f := .readOutside 1024) rfl rfl ?_
    have hzero : 0x22 ∉ (receive clearBuf bytes).drop (i + 4) := by
      rw [receive_clear, List.drop_append, List.drop_replicate, List.mem_append, List.mem_replicate]
      rintro (h | ⟨-, h⟩)
      · exact hquote h
      · exact absurd h (by decide)
    have hseen : idAt (receive clearBuf bytes) i = true := by
      rw [receive, idAt_append hroom, hat]
    have hbranch := extractAt_unclosed noVoice hseen hzero
    rw [length_receive length_clearBuf hlen] at hbranch
    rw [hclear, receive, extraction_firstId hid hlen]
    exact hbranch

/-- No `id=`, but the beginning of one in the last bytes of `recvbuf`. -/
theorem not_isolated_of_cut {bytes : List UInt8} (hid : firstId bytes = none)
    (hfull : bytes.length = recvMaxSize) (hends : EndsInId bytes) : ¬ Isolated bytes := by
  refine not_isolated_of_fault [] (f := .readOutside 1024) rfl rfl ?_
  rw [show receive commandLoop.init.recvbuf bytes = receive clearBuf bytes from rfl,
    receive_full hfull, extraction_none hfull hid, if_pos hends]

/-- No `id=`, and an old `i` in the last byte. -/
theorem not_isolated_of_long {bytes : List UInt8} (hid : firstId bytes = none)
    (hlong : 1018 < bytes.length) (hshort : bytes.length < 1024) : ¬ Isolated bytes := by
  have hfirst : extraction (receive clearBuf earlyId) noVoice =
      .ok (0x31 :: List.replicate 9 0) := by
    rw [receive_full length_earlyId, extraction_earlyId]
  obtain ⟨s, hs, hbuf, hover⟩ := exec_first length_earlyId.le hfirst (by decide)
  refine not_isolated_of_fault _ hs hover (f := .readOutside 1024) ?_
  rw [hbuf, receive_full length_earlyId, receive_earlyId (by omega) (by omega),
    extraction_over_i hid (by omega)]

/-- No `id=`, and an old `id="1"` in the last bytes. -/
theorem not_isolated_of_short {bytes : List UInt8} (hid : firstId bytes = none)
    (hle : bytes.length ≤ 1018) : ¬ Isolated bytes := by
  refine not_isolated_after length_lateId extraction_lateId (by decide) ?_
  rw [receive_lateId hle, extraction_over_zeros hid (by omega), extraction_over_idOne hid hle]
  exact fun h => absurd (Except.ok.inj h) (by decide)

/-- **A reply that is not self-contained** is read differently after different replies. -/
theorem not_isolated_of_not_selfContained {bytes : List UInt8} (hlen : bytes.length ≤ recvMaxSize)
    (hself : ¬ SelfContained bytes) : ¬ Isolated bytes := by
  rw [SelfContained] at hself
  cases hid : firstId bytes with
  | some i =>
      rw [hid] at hself
      exact not_isolated_of_branch hlen hid hself
  | none =>
      rw [hid] at hself
      rcases Nat.lt_or_ge bytes.length 1024 with hshort | hfull
      · rcases Nat.lt_or_ge 1018 bytes.length with hlong | hle
        · exact not_isolated_of_long hid hlong hshort
        · exact not_isolated_of_short hid hle
      · have hfull : bytes.length = recvMaxSize := le_antisymm hlen hfull
        exact not_isolated_of_cut hid hfull (not_not.mp fun hends => hself ⟨hfull, hends⟩)

/-! ## The exact condition -/

/-- **Stale replies, exactly.**  For every reply that `recv` can return: a round stays inside the
arrays and does the same in any two runs, whatever they received in the rounds before, if and only
if the reply is self-contained. -/
theorem isolated_iff_selfContained {bytes : List UInt8} (hlen : bytes.length ≤ recvMaxSize) :
    Isolated bytes ↔ SelfContained bytes := by
  constructor
  · intro hiso
    by_contra hself
    exact not_isolated_of_not_selfContained hlen hself hiso
  · intro hself hs₁ hs₂ s₁ s₂ _ h₁ h₂ hover₁ hover₂
    obtain ⟨hbuf₁, hvoice₁⟩ := ready_exec h₁
    obtain ⟨hbuf₂, hvoice₂⟩ := ready_exec h₂
    obtain ⟨voice, hvoice⟩ := extraction_of_selfContained hself hlen
    exact ⟨⟨voice, operate voice, strcmpEq voice 999⟩,
      (round_eq_ok_iff (hvoice₁ hover₁)).mpr ⟨hvoice _ hbuf₁, rfl⟩,
      (round_eq_ok_iff (hvoice₂ hover₂)).mpr ⟨hvoice _ hbuf₂, rfl⟩⟩

/-- A server that closes the connection after `id="1"` has that command carried out again; after a
reply without an ID it has not. -/
theorem closed_connection_repeats_command :
    (∃ s, commandLoop.exec commandLoop.init [some idOne] = some s ∧ s.ended = false ∧
        (s.round []).toOption.map Round.branches = some [.turnOn]) ∧
      (∃ s, commandLoop.exec commandLoop.init [some [0]] = some s ∧ s.ended = false ∧
        (s.round []).toOption.map Round.branches = some []) ∧
      ¬ Isolated [] := by
  refine ⟨?_, ?_, ?_⟩
  · exact commandLoop.exists_exec commandLoop.init [some idOne] (fun s => s.ended = false ∧
      (s.round []).toOption.map Round.branches = some [.turnOn]) (by decide +kernel)
  · obtain ⟨hclear, hok⟩ := clear_reply
    obtain ⟨s, hs, hbuf, hover⟩ := exec_first (by decide) hok (by decide)
    have hnothing : extraction (receive s.recvbuf []) s.voice = .ok noVoice := by
      rw [hbuf, hclear, (ready_exec hs).2 hover]
      exact extraction_over_zeros (by decide) (by decide)
    refine ⟨s, hs, hover, ?_⟩
    rw [Client.round, hnothing]
    decide
  · refine not_isolated_of_not_selfContained (by decide) fun hself => ?_
    have hfull : ([] : List UInt8).length = recvMaxSize := hself.1
    exact absurd hfull (by decide)

/-- A complete `id="1"` is read the same way after anything. -/
theorem complete_reply_isolated : Isolated idOne :=
  (isolated_iff_selfContained (by decide)).mpr ⟨by decide, fun _ => by decide⟩

end CourseDesign.Voice
