import CourseDesign.Voice.CommandLoop

/-!
# Utterances and replies

The command loop of the client together with `run_asr` of the recognition server, one utterance
after another.  The client does one `recv` per upload.  The server writes its accumulated result
once per partial result (`on_result`, `show_result`), and nothing at all if there is none.

* `Lockstep` — the condition on a step: one result per utterance, with an ID that fits, and `recv`
  returns it whole.
* `inStep_preserved` — under it, each side is where the other expects it to be.
* `paired_of_lockstep` — so the ID operated on in a round is that of its utterance, and the two
  never wait for each other.
-/

namespace CourseDesign.Voice

def bufferSize : ℕ := 4096

/-- Where the server is: in `get_audio_file` or in `demo_file`. -/
inductive ServerPc where
  | waiting
  | recognising
  deriving DecidableEq, Repr

/-- Both programs and what is between them.  `current` and `finished` record the results of the
utterance at hand and of the earlier ones, `operated` the IDs passed to `Operate`. -/
structure Session where
  client : Client
  /-- The client has uploaded and is at its `recv`. -/
  inRecv : Bool
  /-- Uploads the server has not read. -/
  uploads : ℕ
  server : ServerPc
  gResult : List UInt8
  gBuffersize : ℕ
  pending : List UInt8
  current : List (List UInt8)
  finished : List (List (List UInt8))
  operated : List (List UInt8)
  deriving DecidableEq, Repr

/-- A step of one side. -/
inductive SessionAction where
  | upload
  /-- `get_audio_file` returns and the recognition starts. -/
  | audio
  /-- The recogniser calls `on_result` with this text. -/
  | result (text : List UInt8)
  | recognised
  /-- `recv` returns `n` bytes, and the client goes through its round. -/
  | recv (n : ℕ)
  deriving DecidableEq, Repr

/-- `on_result` and `show_result`: a buffer that is too small grows once, by `BUFFER_SIZE`, and the
whole accumulated string is written to the socket.  `none` is a `strncat` past the buffer. -/
def Session.onResult (s : Session) (text : List UInt8) : Option Session :=
  let left := s.gBuffersize - 1 - s.gResult.length
  let size := if left < text.length then s.gBuffersize + bufferSize else s.gBuffersize
  let accumulated := s.gResult ++ text
  if accumulated.length < size then
    some
      { s with
        gResult := accumulated
        gBuffersize := size
        pending := s.pending ++ accumulated
        current := s.current ++ [text] }
  else none

/-- `recv`, then the round of the command loop. -/
def Session.recv (s : Session) (n : ℕ) : Option Session := do
  let r ← (s.client.round (s.pending.take n)).toOption
  let client ← commandLoop.step s.client (some (s.pending.take n))
  return { s with
    client := client
    inRecv := false
    pending := s.pending.drop n
    operated := s.operated ++ [r.voice] }

/-- The two programs, connected. -/
def session : Machine Session SessionAction where
  init :=
    { client := commandLoop.init, inRecv := false, uploads := 0, server := .waiting, gResult := [],
      gBuffersize := bufferSize, pending := [], current := [], finished := [], operated := [] }
  step s
    | .upload => Machine.when (s.client.ended = false ∧ s.inRecv = false)
        { s with inRecv := true, uploads := s.uploads + 1 }
    | .audio => Machine.when (s.server = .waiting ∧ 0 < s.uploads)
        { s with
          uploads := s.uploads - 1, server := .recognising, gResult := [],
          gBuffersize := bufferSize, current := [] }
    | .result text => if s.server = .recognising then s.onResult text else none
    | .recognised => Machine.when (s.server = .recognising)
        { s with server := .waiting, current := [], finished := s.finished ++ [s.current] }
    | .recv n =>
        if s.inRecv = true ∧ 0 < n ∧ n ≤ recvMaxSize ∧ n ≤ s.pending.length then s.recv n else none

/-! ## The property and the condition -/

/-- The ID operated on in a round is the ID of the final result of its utterance. -/
def Session.Paired (s : Session) : Prop :=
  ∀ (k : ℕ) (voice : List UInt8) (results : List (List UInt8)), s.operated[k]? = some voice →
    s.finished[k]? = some results →
    ∃ text id, results.getLast? = some text ∧ HasId text id ∧ voice = padded id

/-- The client waits for a reply and the server for audio, and nothing is on the way. -/
def Session.Stuck (s : Session) : Prop :=
  s.inRecv = true ∧ s.pending = [] ∧ s.server = .waiting ∧ s.uploads = 0

/-- A result with an ID that fits `Voice`, short enough for one `recv`. -/
def GoodResult (text : List UInt8) : Prop :=
  text.length ≤ recvMaxSize ∧ ∃ id, HasId text id ∧ id.length ≤ 9

def Lockstep (s : Session) : SessionAction → Prop
  | .result text => s.current = [] ∧ GoodResult text
  | .recognised => s.current ≠ []
  | .recv n => n = s.pending.length
  | _ => True

/-! ## Where the two sides are -/

/-- The results of the utterances the server has begun with. -/
def Session.begun (s : Session) : List (List (List UInt8)) :=
  s.finished ++ if s.server = .recognising then [s.current] else []

/-- The client's round is that of the utterance it counts. -/
structure Session.InStep (s : Session) : Prop where
  /-- Every utterance is uploaded, begun or operated on. -/
  counted : s.begun.length + s.uploads = s.operated.length + if s.inRecv = true then 1 else 0
  paired : ∀ (k : ℕ) (voice : List UInt8), s.operated[k]? = some voice →
    ∃ text id, s.begun[k]? = some [text] ∧ HasId text id ∧ voice = padded id
  /-- While the client waits for an utterance begun with, its one result is pending, or still to
  come. -/
  waiting : s.inRecv = true → s.uploads = 0 →
    (s.server = .recognising ∧ s.current = [] ∧ s.pending = []) ∨
      ∃ text, s.begun[s.operated.length]? = some [text] ∧ GoodResult text ∧ s.pending = text
  /-- Otherwise no reply is on the way and the server is done with its result. -/
  quiet : (s.inRecv = true → s.uploads ≠ 0) →
    s.pending = [] ∧ (s.server = .recognising → s.current ≠ [])
  fresh : s.server = .recognising → s.current = [] → s.gResult = [] ∧ s.gBuffersize = bufferSize
  ready : s.client.Ready
  running : s.inRecv = true → s.client.ended = false

theorem inStep_initial : session.init.InStep where
  counted := rfl
  paired k voice h := by simp [session] at h
  waiting h := by simp [session] at h
  quiet _ := ⟨rfl, fun h => nomatch h⟩
  fresh h := nomatch h
  ready := ⟨by simp [session, commandLoop], fun _ => rfl⟩
  running h := by simp [session] at h

/-- Everything operated on was begun with. -/
theorem Session.InStep.operated_le {s : Session} (h : s.InStep) :
    s.operated.length ≤ s.begun.length := by
  by_contra hlt
  have hk : s.operated.length - 1 < s.operated.length := by omega
  obtain ⟨text, id, hget, -, -⟩ := h.paired _ _ (List.getElem?_eq_getElem hk)
  obtain ⟨hin, -⟩ := List.getElem?_eq_some_iff.mp hget
  omega

/-- Outside its `recv` the client has nothing uploaded. -/
theorem Session.InStep.no_uploads {s : Session} (h : s.InStep) (hout : s.inRecv = false) :
    s.uploads = 0 := by
  have hcount := h.counted
  have hle := h.operated_le
  rw [hout, if_neg (by simp)] at hcount
  omega

/-- A server that has not told its result yet is the one the client waits for. -/
theorem Session.InStep.awaited {s : Session} (h : s.InStep) (hserver : s.server = .recognising)
    (hcurrent : s.current = []) :
    s.inRecv = true ∧ s.uploads = 0 ∧ s.pending = [] ∧ s.finished.length = s.operated.length := by
  have hnotquiet : ¬ (s.inRecv = true → s.uploads ≠ 0) :=
    fun hq => (h.quiet hq).2 hserver hcurrent
  obtain ⟨hin, hup⟩ : s.inRecv = true ∧ s.uploads = 0 := by
    simpa using hnotquiet
  have hcount := h.counted
  rw [Session.begun, if_pos hserver, List.length_append, List.length_singleton, hin, if_pos rfl,
    hup] at hcount
  refine ⟨hin, hup, ?_, by omega⟩
  rcases h.waiting hin hup with ⟨-, -, hpending⟩ | ⟨text, hget, -, -⟩
  · exact hpending
  · -- the utterance at hand has no result yet, so it is not one with a result
    have hlast : s.begun[s.operated.length]? = some s.current := by
      rw [Session.begun, if_pos hserver, List.getElem?_append_right (by omega)]
      have hpos : s.operated.length - s.finished.length = 0 := by omega
      rw [hpos]
      rfl
    rw [hlast, hcurrent] at hget
    exact absurd (Option.some.inj hget) (by simp)

theorem inStep_upload {s t : Session} (h : s.InStep) (hstep : session.step s .upload = some t) :
    t.InStep := by
  obtain ⟨⟨hover, hout⟩, rfl⟩ := Machine.when_eq_some.mp hstep
  have hup := h.no_uploads hout
  have hcount := h.counted
  rw [hout, if_neg (by simp)] at hcount
  have hquiet := h.quiet (by simp [hout])
  refine { h with
    counted := ?_
    waiting := ?_
    quiet := fun _ => hquiet
    running := fun _ => hover }
  · show s.begun.length + (s.uploads + 1) = s.operated.length + 1
    omega
  · intro _ hzero
    have hpos : s.uploads + 1 = 0 := hzero
    omega

theorem inStep_audio {s t : Session} (h : s.InStep) (hstep : session.step s .audio = some t) :
    t.InStep := by
  obtain ⟨⟨hserver, hup⟩, rfl⟩ := Machine.when_eq_some.mp hstep
  have hin : s.inRecv = true := by
    by_contra hout
    have hzero := h.no_uploads (by simpa using hout)
    omega
  have hcount := h.counted
  have hle := h.operated_le
  rw [hin, if_pos rfl] at hcount
  have hbegun : s.begun = s.finished := by
    rw [Session.begun, hserver]
    simp
  rw [hbegun] at hcount hle
  have hpending := (h.quiet (fun _ => by omega)).1
  refine { h with
    counted := ?_
    paired := fun k voice hk => ?_
    waiting := fun _ _ => ?_
    quiet := ?_
    fresh := fun _ _ => ⟨rfl, rfl⟩ }
  · show (s.finished ++ [[]]).length + (s.uploads - 1) =
      s.operated.length + if s.inRecv = true then 1 else 0
    rw [hin, if_pos rfl, List.length_append, List.length_singleton]
    omega
  · obtain ⟨text, id, hget, hid, hvoice⟩ := h.paired k voice hk
    rw [hbegun] at hget
    refine ⟨text, id, ?_, hid, hvoice⟩
    show (s.finished ++ [[]])[k]? = some [text]
    rw [List.getElem?_append_left (List.getElem?_eq_some_iff.mp hget).1, hget]
  · exact Or.inl ⟨rfl, rfl, hpending⟩
  · intro hq
    have hne : s.uploads - 1 ≠ 0 := hq hin
    omega

theorem inStep_result {s t : Session} {text : List UInt8} (h : s.InStep)
    (hguard : Lockstep s (.result text)) (hstep : session.step s (.result text) = some t) :
    t.InStep := by
  obtain ⟨hcurrent, hgood⟩ := hguard
  have hserver : s.server = .recognising := by
    by_contra hne
    simp [session, hne] at hstep
  obtain ⟨hin, hup, hpending, hfinished⟩ := h.awaited hserver hcurrent
  obtain ⟨hg, hsize⟩ := h.fresh hserver hcurrent
  have hshort : text.length < bufferSize := lt_of_le_of_lt hgood.1 (by decide)
  have hres : s.onResult text = some
      { s with gResult := text, pending := text, current := [text] } := by
    have hleft : ¬ bufferSize - 1 < text.length := by omega
    simp [Session.onResult, hg, hsize, hleft, hshort, hpending, hcurrent]
  obtain rfl : { s with gResult := text, pending := text, current := [text] } = t := by
    simpa [session, hserver, hres] using hstep
  have hbegun : s.begun = s.finished ++ [[]] := by
    rw [Session.begun, if_pos hserver, hcurrent]
  have hbegun' : Session.begun { s with gResult := text, pending := text, current := [text] } =
      s.finished ++ [[text]] := by
    rw [Session.begun, if_pos hserver]
  refine { h with
    counted := ?_
    paired := fun k voice hk => ?_
    waiting := fun _ _ => Or.inr ⟨text, ?_, hgood, rfl⟩
    quiet := fun hq => absurd hup (hq hin)
    fresh := fun _ hnil => absurd hnil (by simp) }
  · have hcount := h.counted
    rw [hbegun] at hcount
    rw [hbegun']
    simpa using hcount
  · obtain ⟨txt, id, hget, hid, hvoice⟩ := h.paired k voice hk
    have hlt : k < s.finished.length := by
      rw [hfinished]
      exact (List.getElem?_eq_some_iff.mp hk).1
    rw [hbegun, List.getElem?_append_left hlt] at hget
    exact ⟨txt, id, by rw [hbegun', List.getElem?_append_left hlt, hget], hid, hvoice⟩
  · rw [hbegun']
    show (s.finished ++ [[text]])[s.operated.length]? = some [text]
    rw [List.getElem?_append_right (by omega)]
    simp [hfinished]

theorem inStep_recognised {s t : Session} (h : s.InStep) (hguard : Lockstep s .recognised)
    (hstep : session.step s .recognised = some t) : t.InStep := by
  obtain ⟨hserver, rfl⟩ := Machine.when_eq_some.mp hstep
  have hcurrent : s.current ≠ [] := hguard
  have hbegun : Session.begun
      { s with server := .waiting, current := [], finished := s.finished ++ [s.current] } =
      s.begun := by
    rw [Session.begun, Session.begun, if_pos hserver, if_neg (by simp), List.append_nil]
  refine { h with
    counted := by rw [hbegun]; exact h.counted
    paired := fun k voice hk => by rw [hbegun]; exact h.paired k voice hk
    waiting := fun hin hup => ?_
    quiet := fun hq => ⟨(h.quiet hq).1, fun hne => nomatch hne⟩
    fresh := fun hne => nomatch hne }
  rcases h.waiting hin hup with ⟨-, hnil, -⟩ | ⟨text, hget, hgood, hpending⟩
  · exact absurd hnil hcurrent
  · exact Or.inr ⟨text, by rw [hbegun]; exact hget, hgood, hpending⟩

/-- The round of a client that gets a good result. -/
theorem round_of_hasId {c : Client} {text id : List UInt8} (hc : c.Ready) (hover : c.ended = false)
    (hlen : text.length ≤ recvMaxSize) (hid : HasId text id) (hfit : id.length ≤ 9) {r : Round}
    (hr : (c.round text).toOption = some r) : r.voice = padded id := by
  have hext : extraction (receive c.recvbuf text) c.voice = .ok (padded id) := by
    rw [hc.2 hover]
    exact extraction_of_hasId hid (by omega) hlen
  rw [Client.round, hext] at hr
  exact (congrArg Round.voice (Option.some.inj hr)).symm

theorem inStep_recv {s t : Session} {n : ℕ} (h : s.InStep) (hguard : Lockstep s (.recv n))
    (hstep : session.step s (.recv n) = some t) : t.InStep := by
  obtain rfl : n = s.pending.length := hguard
  obtain ⟨⟨hin, hpos, -, -⟩, hrecv⟩ : (s.inRecv = true ∧ 0 < s.pending.length ∧
      s.pending.length ≤ recvMaxSize ∧ s.pending.length ≤ s.pending.length) ∧
      s.recv s.pending.length = some t := by
    simpa [session] using hstep
  simp only [Session.recv, Option.bind_eq_bind, Option.bind_eq_some_iff, List.take_length,
    List.drop_length] at hrecv
  obtain ⟨r, hr, client, hclient, ht⟩ := hrecv
  obtain rfl := Option.some.inj ht
  have hup : s.uploads = 0 := by
    by_contra hne
    have hnil := (h.quiet fun _ => hne).1
    simp [hnil] at hpos
  rcases h.waiting hin hup with ⟨-, -, hnil⟩ | ⟨text, hget, ⟨hlen, id, hid, hfit⟩, hpending⟩
  · simp [hnil] at hpos
  · rw [hpending] at hr hclient
    have hvoice := round_of_hasId h.ready (h.running hin) hlen hid hfit hr
    have hcount := h.counted
    rw [hin, if_pos rfl, hup] at hcount
    refine { h with
      counted := ?_
      paired := fun k voice hk => ?_
      waiting := fun hno => Bool.noConfusion hno
      quiet := fun _ => ⟨rfl, fun hserver hnil => ?_⟩
      ready := ready_preserved h.ready trivial hclient
      running := fun hno => Bool.noConfusion hno }
    · show s.begun.length + s.uploads = (s.operated ++ [r.voice]).length + 0
      rw [List.length_append, List.length_singleton]
      omega
    · rcases Nat.lt_or_ge k s.operated.length with hlt | hge
      · have hold : s.operated[k]? = some voice := by
          rw [← hk]
          exact (List.getElem?_append_left hlt).symm
        exact h.paired k voice hold
      · have hnew : (s.operated ++ [r.voice])[k]? = some voice := hk
        have hlt := (List.getElem?_eq_some_iff.mp hnew).1
        rw [List.length_append, List.length_singleton] at hlt
        have hlast : k = s.operated.length := by omega
        rw [hlast, List.getElem?_append_right (le_refl _), Nat.sub_self] at hnew
        have heq : r.voice = voice := by simpa using hnew
        exact ⟨text, id, by rw [hlast]; exact hget, hid, heq ▸ hvoice⟩
    · -- its result is the one just read
      have hnone : s.pending = [] := (h.awaited hserver hnil).2.2.1
      simp [hnone] at hpos

/-- **Step lemma.** -/
theorem inStep_preserved : session.Preserves Lockstep Session.InStep := by
  intro s a t hs hguard hstep
  cases a with
  | upload => exact inStep_upload hs hstep
  | audio => exact inStep_audio hs hstep
  | result text => exact inStep_result hs hguard hstep
  | recognised => exact inStep_recognised hs hguard hstep
  | recv n => exact inStep_recv hs hguard hstep

/-! ## The property -/

theorem Session.InStep.paired_finished {s : Session} (h : s.InStep) : s.Paired := by
  intro k voice results hk hresults
  obtain ⟨text, id, hget, hid, hvoice⟩ := h.paired k voice hk
  have hlt := (List.getElem?_eq_some_iff.mp hresults).1
  rw [Session.begun, List.getElem?_append_left hlt, hresults] at hget
  obtain rfl := Option.some.inj hget
  exact ⟨text, id, rfl, hid, hvoice⟩

theorem Session.InStep.not_stuck {s : Session} (h : s.InStep) : ¬ s.Stuck := by
  rintro ⟨hin, hpending, hserver, hup⟩
  rcases h.waiting hin hup with ⟨hrec, -, -⟩ | ⟨text, -, ⟨-, id, hid, -⟩, htext⟩
  · simp [hserver] at hrec
  · obtain ⟨before, after, heq, -, -⟩ := hid
    rw [← htext, hpending] at heq
    simp at heq

/-- **Pairing.**  In every run in which the recogniser reports exactly one result per utterance,
with an ID that fits, and each `recv` returns the reply whole, the ID of every round is that of its
utterance in every state, and the two sides never wait for each other. -/
theorem paired_of_lockstep {as : List SessionAction} (h : session.Along Lockstep session.init as) :
    session.Throughout (fun s => s.Paired ∧ ¬ s.Stuck) session.init as :=
  (Machine.throughout_of_preserves inStep_preserved inStep_initial h).mono
    fun _ hs => ⟨hs.paired_finished, hs.not_stuck⟩

/-- An utterance without a result leaves both sides waiting; after one with the results `id="1"` and
`id="2"` the client operates on the first. -/
theorem zero_or_two_results_break_pairing :
    (∃ s, session.exec session.init [.upload, .audio, .recognised] = some s ∧ s.Stuck) ∧
      ∃ s, session.exec session.init
          [.upload, .audio, .result idOne, .result [0x69, 0x64, 0x3D, 0x22, 0x32, 0x22],
            .recognised, .recv 18] = some s ∧
        s.finished = [[idOne, [0x69, 0x64, 0x3D, 0x22, 0x32, 0x22]]] ∧
        s.operated = [padded [0x31]] := by
  constructor
  · exact session.exists_exec session.init _ (fun s => s.inRecv = true ∧ s.pending = [] ∧
      s.server = .waiting ∧ s.uploads = 0) (by decide +kernel)
  · exact session.exists_exec session.init _ (fun s =>
      s.finished = [[idOne, [0x69, 0x64, 0x3D, 0x22, 0x32, 0x22]]] ∧ s.operated = [padded [0x31]])
      (by decide +kernel)

theorem goodResult_idOne : GoodResult idOne :=
  ⟨by decide, [0x31], ⟨[], [], rfl, by decide, by decide⟩, by decide⟩

/-- `id="2"`. -/
def idTwo : List UInt8 := [0x69, 0x64, 0x3D, 0x22, 0x32, 0x22]

theorem goodResult_idTwo : GoodResult idTwo :=
  ⟨by decide, [0x32], ⟨[], [], rfl, by decide, by decide⟩, by decide⟩

/-- Two utterances, the second of which is uploaded when the result of the first is read. -/
def twoRounds : List SessionAction :=
  [.upload, .audio, .result idOne, .recognised, .recv 6, .upload, .audio, .result idTwo, .recognised,
    .recv 6]

theorem one_result_is_operated_on :
    session.Throughout (fun s => s.Paired ∧ ¬ s.Stuck) session.init twoRounds ∧
      ∃ s, session.exec session.init twoRounds = some s ∧
        s.operated = [padded [0x31], padded [0x32]] := by
  refine ⟨paired_of_lockstep ⟨trivial, fun s hs => ?_⟩, ?_⟩
  · obtain rfl := Option.some.inj hs
    refine ⟨trivial, fun s hs => ?_⟩
    obtain rfl := Option.some.inj hs
    refine ⟨⟨rfl, goodResult_idOne⟩, fun s hs => ?_⟩
    obtain rfl := Option.some.inj hs
    refine ⟨by simp [Lockstep], fun s hs => ?_⟩
    obtain rfl := Option.some.inj hs
    refine ⟨rfl, fun s hs => ?_⟩
    obtain rfl := Option.some.inj hs
    refine ⟨trivial, fun s hs => ?_⟩
    obtain rfl := Option.some.inj hs
    refine ⟨trivial, fun s hs => ?_⟩
    obtain rfl := Option.some.inj hs
    refine ⟨⟨rfl, goodResult_idTwo⟩, fun s hs => ?_⟩
    obtain rfl := Option.some.inj hs
    refine ⟨by simp [Lockstep], fun s hs => ?_⟩
    obtain rfl := Option.some.inj hs
    exact ⟨rfl, fun _ _ => trivial⟩
  · exact session.exists_exec session.init _
      (fun s => s.operated = [padded [0x31], padded [0x32]]) (by decide +kernel)

end CourseDesign.Voice
