import CourseDesign.Lib.Machine
import CourseDesign.Lib.Stream
import CourseDesign.Voice.Pairing

/-!
# Uploads without a frame

`send_file` sends as many bytes as the recording has and `send` takes, and `main` ignores what it
returns; `get_audio_file` reads 96000 bytes, whoever's they are.

* `Whole` — the uploads that are one block of 96000 bytes, the recording itself.
* `aligned_preserved` — along whole uploads, what is stored, read and in flight is what was
  recorded.
* `delivered_iff_whole` — exactly the lists of whole uploads are delivered block for recording in
  every run, with neither side left waiting for the other.
-/

namespace CourseDesign.Voice

/-- The bytes `get_audio_file` reads for one recording: three seconds of 16 bit at 16 kHz. -/
def audioBytes : ℕ := 96000

/-- A recording, and what the calls of `send_file` do with it. -/
structure Upload where
  /-- The bytes of `live.pcm`. -/
  pcm : List UInt8
  opened : Bool
  /-- The bytes `read` puts into the buffer, `0` also for an error. -/
  readCount : ℕ
  /-- The bytes `send` takes, `0` also for an error. -/
  sendCount : ℕ
  deriving DecidableEq, Repr

/-- `pcm_buf`: zeroed by `calloc`, and filled as far as `read` got. -/
def Upload.pcmBuf (u : Upload) : List UInt8 :=
  u.pcm.take u.readCount ++ List.replicate (u.pcm.length - u.readCount) 0

/-- `send_file`: the bytes that enter the stream. -/
def sendFile (u : Upload) : List UInt8 :=
  if u.opened then u.pcmBuf.take u.sendCount else []

inductive ClientPc where
  | recording
  | inRecv
  | exited
  deriving DecidableEq, Repr

/-- Both programs and the two directions of their connection.  `recordings` are the recordings
taken and `stored` the buffers written to `cmd.pcm`, in order. -/
structure Link where
  client : ClientPc
  /-- `none` after `exit`. -/
  server : Option ServerPc
  stream : List UInt8
  /-- What `get_audio_file` has in its buffer. -/
  pcm : List UInt8
  pending : List UInt8
  recordings : List (List UInt8)
  stored : List (List UInt8)
  deriving DecidableEq, Repr

/-- A step of one side. -/
inductive LinkAction where
  /-- The client records, and calls `send_file`. -/
  | upload (u : Upload)
  /-- `read` returns `n` bytes to `get_audio_file`. -/
  | read (n : ℕ)
  /-- `read` returns `0` or `-1`. -/
  | readEnds
  | reply (bytes : List UInt8)
  | recognised
  /-- `recv` returns `n` bytes, and the round goes on to its end, or to `Exit`. -/
  | recv (n : ℕ) (exits : Bool)
  | recvFailed
  deriving DecidableEq, Repr

/-- The loop of `get_audio_file` after `read` returned `n`. -/
def Link.read (s : Link) (n : ℕ) : Link :=
  let pcm := s.pcm ++ s.stream.take n
  if pcm.length = audioBytes then
    { s with
      server := some .recognising, stream := s.stream.drop n, pcm := []
      stored := s.stored ++ [pcm] }
  else { s with stream := s.stream.drop n, pcm := pcm }

theorem Link.read_block {s : Link} {n : ℕ} (h : (s.pcm ++ s.stream.take n).length = audioBytes) :
    s.read n =
      { s with
        server := some .recognising, stream := s.stream.drop n, pcm := []
        stored := s.stored ++ [s.pcm ++ s.stream.take n] } := by
  simp only [Link.read, if_pos h]

theorem Link.read_part {s : Link} {n : ℕ} (h : (s.pcm ++ s.stream.take n).length ≠ audioBytes) :
    s.read n = { s with stream := s.stream.drop n, pcm := s.pcm ++ s.stream.take n } := by
  simp only [Link.read, if_neg h]

/-- The connected programs.  `recv` returns without a byte only when the server is gone. -/
def link : Machine Link LinkAction where
  init :=
    { client := .recording, server := some .waiting, stream := [], pcm := [], pending := [],
      recordings := [], stored := [] }
  step s
    | .upload u => Machine.when (s.client = .recording)
        { s with
          client := .inRecv
          stream := s.stream ++ sendFile u
          recordings := s.recordings ++ [u.pcm] }
    | .read n => Machine.when (s.server = some .waiting ∧ 0 < n ∧ n ≤ s.stream.length ∧
        n ≤ audioBytes - s.pcm.length) (s.read n)
    | .readEnds => Machine.when (s.server = some .waiting) { s with server := none }
    | .reply bytes => Machine.when (s.server = some .recognising)
        { s with pending := s.pending ++ bytes }
    | .recognised => Machine.when (s.server = some .recognising) { s with server := some .waiting }
    | .recv n exits => Machine.when (s.client = .inRecv ∧ n ≤ recvMaxSize ∧ n ≤ s.pending.length ∧
        (n = 0 → s.server = none ∧ s.pending = []))
        { s with
          client := if exits then .exited else .recording
          pending := s.pending.drop n }
    | .recvFailed => Machine.when (s.client = .inRecv) { s with client := .exited }

def uploads (as : List LinkAction) : List Upload :=
  as.filterMap fun
    | .upload u => some u
    | _ => none

/-! ## The property and the condition -/

/-- The k-th buffer stored is the k-th recording taken. -/
def Link.Delivered (s : Link) : Prop :=
  ∀ (k : ℕ) (block : List UInt8), s.stored[k]? = some block → s.recordings[k]? = some block

/-- The client waits for a reply and the server for the rest of a recording, and nothing is on the
way. -/
def Link.Stalled (s : Link) : Prop :=
  s.client = .inRecv ∧ s.pending = [] ∧ s.server = some .waiting ∧ s.stream = [] ∧
    s.stored.length < s.recordings.length

instance (s : Link) : Decidable s.Stalled := inferInstanceAs (Decidable (_ ∧ _))

/-- The condition on an upload: the file is there and has the size the server expects, `send` takes
all of it, and what `read` leaves out is what `calloc` put there. -/
structure Whole (u : Upload) : Prop where
  opened : u.opened = true
  size : u.pcm.length = audioBytes
  sent : audioBytes ≤ u.sendCount
  unread : ∀ b ∈ u.pcm.drop u.readCount, b = 0

theorem length_pcmBuf (u : Upload) : u.pcmBuf.length = u.pcm.length := by
  rw [Upload.pcmBuf, List.length_append, List.length_take, List.length_replicate]
  omega

theorem pcmBuf_eq_iff {u : Upload} :
    u.pcmBuf = u.pcm ↔ ∀ b ∈ u.pcm.drop u.readCount, b = 0 := by
  have hsplit : u.pcmBuf = u.pcm ↔
      List.replicate (u.pcm.length - u.readCount) 0 = u.pcm.drop u.readCount := by
    have happend : u.pcmBuf = u.pcm.take u.readCount ++ u.pcm.drop u.readCount ↔
        List.replicate (u.pcm.length - u.readCount) 0 = u.pcm.drop u.readCount :=
      List.append_right_inj (u.pcm.take u.readCount)
    rwa [List.take_append_drop] at happend
  rw [hsplit, eq_comm, List.eq_replicate_iff, List.length_drop]
  simp

/-- **Whole uploads** are those whose bytes in the stream are the recording, as one block. -/
theorem whole_iff {u : Upload} :
    Whole u ↔ sendFile u = u.pcm ∧ u.pcm.length = audioBytes := by
  constructor
  · intro h
    refine ⟨?_, h.size⟩
    have hall : u.pcmBuf.length ≤ u.sendCount := by
      rw [length_pcmBuf, h.size]
      exact h.sent
    rw [sendFile, if_pos h.opened, List.take_of_length_le hall]
    exact pcmBuf_eq_iff.mpr h.unread
  · rintro ⟨hsend, hsize⟩
    have hopened : u.opened = true := by
      by_contra hne
      rw [sendFile, if_neg hne] at hsend
      rw [← hsend] at hsize
      exact absurd hsize (by decide)
    rw [sendFile, if_pos hopened] at hsend
    have hsent : audioBytes ≤ u.sendCount := by
      have hlen := congrArg List.length hsend
      rw [List.length_take, length_pcmBuf, hsize] at hlen
      omega
    refine ⟨hopened, hsize, hsent, pcmBuf_eq_iff.mp ?_⟩
    rwa [List.take_of_length_le (by rw [length_pcmBuf, hsize]; exact hsent)] at hsend

/-! ## Whole uploads stay aligned -/

def UploadsWhole : LinkAction → Prop
  | .upload u => Whole u
  | _ => True

/-- The stream is cut where the recordings end. -/
structure Link.Aligned (s : Link) : Prop where
  sizes : ∀ recording ∈ s.recordings, recording.length = audioBytes
  blocks : ∀ block ∈ s.stored, block.length = audioBytes
  room : s.pcm.length < audioBytes
  /-- No byte is lost or added between the two programs. -/
  bytes : s.stored.flatten ++ (s.pcm ++ s.stream) = s.recordings.flatten

theorem aligned_init : link.init.Aligned where
  sizes := by simp [link]
  blocks := by simp [link]
  room := by decide
  bytes := rfl

theorem aligned_upload {s : Link} {u : Upload} (h : s.Aligned) (hu : Whole u) :
    Link.Aligned
      { s with
        client := .inRecv
        stream := s.stream ++ sendFile u
        recordings := s.recordings ++ [u.pcm] } where
  sizes recording hmem := by
    rcases List.mem_append.mp hmem with hold | hnew
    · exact h.sizes recording hold
    · rw [List.mem_singleton.mp hnew]
      exact hu.size
  blocks := h.blocks
  room := h.room
  bytes := by
    show s.stored.flatten ++ (s.pcm ++ (s.stream ++ sendFile u)) = (s.recordings ++ [u.pcm]).flatten
    rw [(whole_iff.mp hu).1, List.flatten_append, ← h.bytes]
    simp

/-- A read moves bytes from the stream to the buffer, and from a full buffer to the file. -/
theorem aligned_read {s : Link} {n : ℕ} (h : s.Aligned) (hn : n ≤ s.stream.length)
    (hfit : n ≤ audioBytes - s.pcm.length) : (s.read n).Aligned := by
  have hlen : (s.pcm ++ s.stream.take n).length = s.pcm.length + n := by
    rw [List.length_append, List.length_take, Nat.min_eq_left hn]
  have hmoved : s.pcm ++ s.stream.take n ++ s.stream.drop n = s.pcm ++ s.stream := by
    rw [List.append_assoc, List.take_append_drop]
  have hroom := h.room
  by_cases hfull : (s.pcm ++ s.stream.take n).length = audioBytes
  · rw [Link.read_block hfull]
    refine ⟨h.sizes, fun block hmem => ?_, show 0 < audioBytes by decide, ?_⟩
    · rcases List.mem_append.mp hmem with hold | hnew
      · exact h.blocks block hold
      · rw [List.mem_singleton.mp hnew]
        exact hfull
    · show (s.stored ++ [s.pcm ++ s.stream.take n]).flatten ++ ([] ++ s.stream.drop n) = _
      rw [← h.bytes, ← hmoved]
      simp
  · rw [Link.read_part hfull]
    refine ⟨h.sizes, h.blocks, ?_, ?_⟩
    · show (s.pcm ++ s.stream.take n).length < audioBytes
      omega
    · show s.stored.flatten ++ (s.pcm ++ s.stream.take n ++ s.stream.drop n) = _
      rw [hmoved]
      exact h.bytes

/-- **Step lemma.** -/
theorem aligned_preserved : link.Preserves (fun _ a => UploadsWhole a) Link.Aligned := by
  intro s a t hs ha hstep
  cases a with
  | upload u =>
      obtain ⟨-, rfl⟩ := Machine.when_eq_some.mp hstep
      exact aligned_upload hs ha
  | read n =>
      obtain ⟨⟨-, -, hn, hfit⟩, rfl⟩ := Machine.when_eq_some.mp hstep
      exact aligned_read hs hn hfit
  | readEnds | reply bytes | recognised | recv n exits | recvFailed =>
      obtain ⟨-, rfl⟩ := Machine.when_eq_some.mp hstep
      exact ⟨hs.sizes, hs.blocks, hs.room, hs.bytes⟩

theorem Link.Aligned.delivered {s : Link} (h : s.Aligned) : s.Delivered := by
  have hprefix : s.stored <+: s.recordings :=
    Stream.blocks_prefix (by decide) h.blocks h.sizes ⟨s.pcm ++ s.stream, h.bytes⟩
  intro k block hk
  obtain ⟨rest, hrest⟩ := hprefix
  rw [← hrest, List.getElem?_append_left (List.getElem?_eq_some_iff.mp hk).1]
  exact hk

/-- With nothing in flight, a recording that is not stored would have to fit into the free part of
the buffer. -/
theorem Link.Aligned.not_stalled {s : Link} (h : s.Aligned) : ¬ s.Stalled := by
  rintro ⟨-, -, -, hstream, hlt⟩
  have hlen := congrArg List.length h.bytes
  rw [hstream, List.append_nil, List.length_append, Stream.length_flatten_blocks h.blocks,
    Stream.length_flatten_blocks h.sizes] at hlen
  have hroom := h.room
  have hmul : (s.stored.length + 1) * audioBytes ≤ s.recordings.length * audioBytes :=
    Nat.mul_le_mul_right _ hlt
  rw [Nat.add_mul] at hmul
  omega

/-! ## Any other upload goes wrong -/

/-- Between two rounds, everything recorded being stored. -/
def Link.idle (recordings : List (List UInt8)) : Link :=
  { client := .recording, server := some .waiting, stream := [], pcm := [], pending := [],
    recordings := recordings, stored := recordings }

/-- After an upload from there: the server waits for its bytes. -/
def Link.uploaded (recordings : List (List UInt8)) (u : Upload) : Link :=
  { Link.idle recordings with
    client := .inRecv, stream := sendFile u, recordings := recordings ++ [u.pcm] }

/-- An upload, and one read of the bytes it brought. -/
theorem exec_upload_read {u : Upload} (recordings : List (List UInt8)) {n : ℕ} (hpos : 0 < n)
    (hn : n ≤ (sendFile u).length) (hfit : n ≤ audioBytes) (as : List LinkAction) :
    link.exec (Link.idle recordings) (.upload u :: .read n :: as) =
      link.exec ((Link.uploaded recordings u).read n) as := by
  have hread : link.step (Link.uploaded recordings u) (.read n) =
      some ((Link.uploaded recordings u).read n) :=
    Machine.when_eq_some.mpr ⟨⟨rfl, hpos, hn, hfit⟩, rfl⟩
  show (link.step (Link.uploaded recordings u) (.read n)).bind _ = _
  rw [hread]
  rfl

/-- With enough bytes, a block of them is stored. -/
theorem read_uploaded {recordings : List (List UInt8)} {u : Upload}
    (h : audioBytes ≤ (sendFile u).length) :
    (Link.uploaded recordings u).read audioBytes =
      { Link.idle recordings with
        client := .inRecv
        server := some .recognising
        stream := (sendFile u).drop audioBytes
        recordings := recordings ++ [u.pcm]
        stored := recordings ++ [(sendFile u).take audioBytes] } := by
  have hblock : ((sendFile u).take audioBytes).length = audioBytes := by
    rw [List.length_take, Nat.min_eq_left h]
  exact Link.read_block (s := Link.uploaded recordings u) hblock

/-- A recording whose bytes arrive at once, and a reply of one byte. -/
def wholeRound (u : Upload) : List LinkAction :=
  [.upload u, .read audioBytes, .reply [0], .recognised, .recv 1 false]

theorem exec_wholeRound {u : Upload} (hu : Whole u) (recordings : List (List UInt8)) :
    link.exec (Link.idle recordings) (wholeRound u) = some (Link.idle (recordings ++ [u.pcm])) := by
  obtain ⟨hsend, hsize⟩ := whole_iff.mp hu
  have htake : (sendFile u).take audioBytes = u.pcm := by
    rw [hsend, ← hsize, List.take_length]
  have hdrop : (sendFile u).drop audioBytes = [] := by
    rw [hsend, ← hsize, List.drop_length]
  have hlen : audioBytes ≤ (sendFile u).length := by rw [hsend, hsize]
  rw [wholeRound, exec_upload_read recordings (by decide) hlen (le_refl _), read_uploaded hlen,
    htake, hdrop]
  rfl

/-- **Whole uploads are delivered** by some run, whatever their number. -/
theorem exists_delivery {us : List Upload} (h : ∀ u ∈ us, Whole u) :
    ∃ as s, uploads as = us ∧ link.exec link.init as = some s ∧ s.stored = us.map Upload.pcm := by
  have hrun : ∀ recordings, ∃ as, uploads as = us ∧ link.exec (Link.idle recordings) as =
      some (Link.idle (recordings ++ us.map Upload.pcm)) := by
    induction us with
    | nil => exact fun recordings => ⟨[], rfl, by simp⟩
    | cons u us ih =>
        intro recordings
        obtain ⟨as, has, hexec⟩ := ih (fun v hv => h v (by simp [hv])) (recordings ++ [u.pcm])
        refine ⟨wholeRound u ++ as, by rw [← has]; rfl, (link.exec_append_eq_some).mpr
          ⟨_, exec_wholeRound (h u (by simp)) recordings, ?_⟩⟩
        rw [hexec]
        simp
  obtain ⟨as, has, hexec⟩ := hrun []
  exact ⟨as, _, has, hexec, rfl⟩

/-- **Any other upload**: the server gets less than a block and both sides wait, or it gets a block
that is not the recording. -/
theorem exists_violation {u : Upload} (hu : ¬ Whole u) (recordings : List (List UInt8)) :
    ∃ as s, uploads as = [u] ∧ link.exec (Link.idle recordings) as = some s ∧
      ¬ (s.Delivered ∧ ¬ s.Stalled) := by
  rcases Nat.lt_or_ge (sendFile u).length audioBytes with hshort | hlong
  · by_cases hnone : sendFile u = []
    · refine ⟨[.upload u], Link.uploaded recordings u, rfl, rfl, fun hgood => hgood.2 ?_⟩
      exact ⟨rfl, rfl, rfl, hnone, by simp [Link.uploaded, Link.idle]⟩
    · have hpos : 0 < (sendFile u).length := List.length_pos_iff.mpr hnone
      have hpart : ((Link.uploaded recordings u).pcm ++
          (Link.uploaded recordings u).stream.take (sendFile u).length).length ≠ audioBytes := by
        show ((sendFile u).take (sendFile u).length).length ≠ audioBytes
        rw [List.take_length]
        omega
      refine ⟨[.upload u, .read (sendFile u).length], _, rfl,
        exec_upload_read recordings hpos (le_refl _) hshort.le [], fun hgood => hgood.2 ?_⟩
      rw [Link.read_part hpart]
      exact ⟨rfl, rfl, rfl, List.drop_length, by simp [Link.uploaded, Link.idle]⟩
  · refine ⟨[.upload u, .read audioBytes], _, rfl,
      exec_upload_read recordings (by decide) hlong (le_refl _) [],
      fun hgood => hu (whole_iff.mpr ?_)⟩
    rw [read_uploaded hlong] at hgood
    have hpcm : u.pcm = (sendFile u).take audioBytes := by
      have hk := hgood.1 recordings.length ((sendFile u).take audioBytes) (by simp)
      simpa using hk
    have hsize : u.pcm.length = audioBytes := by
      rw [hpcm, List.length_take, Nat.min_eq_left hlong]
    have hle : (sendFile u).length ≤ audioBytes := by
      rw [← hsize, ← length_pcmBuf, sendFile]
      split_ifs
      · exact List.length_take_le' _ _
      · exact Nat.zero_le _
    rw [List.take_of_length_le hle] at hpcm
    exact ⟨hpcm.symm, hsize⟩

/-- A list with an upload that is not whole has a run that goes wrong at the first of them. -/
theorem exists_violation_of_not_whole {us : List Upload} (h : ¬ ∀ u ∈ us, Whole u) :
    ∀ recordings, ∃ as s, uploads as <+: us ∧ link.exec (Link.idle recordings) as = some s ∧
      ¬ (s.Delivered ∧ ¬ s.Stalled) := by
  induction us with
  | nil => exact absurd (by simp) h
  | cons u us ih =>
      intro recordings
      by_cases hu : Whole u
      · have htail : ¬ ∀ v ∈ us, Whole v := by
          intro hall
          exact h (List.forall_mem_cons.mpr ⟨hu, hall⟩)
        obtain ⟨as, s, has, hexec, hbad⟩ := ih htail (recordings ++ [u.pcm])
        refine ⟨wholeRound u ++ as, s, ?_, (link.exec_append_eq_some).mpr
          ⟨_, exec_wholeRound hu recordings, hexec⟩, hbad⟩
        exact (List.prefix_cons_inj u).mpr has
      · obtain ⟨as, s, has, hexec, hbad⟩ := exists_violation hu recordings
        exact ⟨as, s, has ▸ ⟨us, rfl⟩, hexec, hbad⟩

/-! ## The property -/

theorem along_of_uploads {as : List LinkAction} (h : ∀ u ∈ uploads as, Whole u) (s : Link) :
    link.Along (fun _ a => UploadsWhole a) s as := by
  refine Machine.along_of_forall (fun a ha => ?_) s
  cases a with
  | upload u => exact h u (List.mem_filterMap.mpr ⟨.upload u, ha, rfl⟩)
  | _ => trivial

/-- **Upload framing, exactly.**  For every list of uploads: in every run that makes these uploads,
up to any point, however the stream is cut and whatever is replied, the k-th buffer stored is the
k-th recording and the two sides do not wait for each other with a recording not stored — if and
only if every upload is whole. -/
theorem delivered_iff_whole (us : List Upload) :
    (∀ as s, uploads as <+: us → link.exec link.init as = some s → s.Delivered ∧ ¬ s.Stalled) ↔
      ∀ u ∈ us, Whole u := by
  constructor
  · intro hgood
    by_contra hnot
    obtain ⟨as, s, has, hexec, hbad⟩ := exists_violation_of_not_whole hnot []
    exact hbad (hgood as s has hexec)
  · intro hall as s has hexec
    have halong := along_of_uploads (fun u hu => hall u (has.subset hu)) link.init
    have haligned := Machine.exec_of_preserves aligned_preserved aligned_init halong hexec
    exact ⟨haligned.delivered, haligned.not_stalled⟩

/-- A recording one byte too long. -/
def longRecording : Upload :=
  { pcm := List.replicate (audioBytes + 1) 0, opened := true, readCount := audioBytes + 1,
    sendCount := audioBytes + 1 }

/-- A recording that cannot be opened leaves both sides waiting; of one that is too long, a part is
stored. -/
theorem unopened_recording_stalls :
    (∃ s, link.exec link.init [.upload ⟨[], false, 0, 0⟩] = some s ∧ s.Stalled) ∧
      ∃ s, link.exec link.init [.upload longRecording, .read audioBytes] = some s ∧
        ¬ s.Delivered := by
  constructor
  · exact link.exists_exec link.init _ Link.Stalled (by decide +kernel)
  · have hsend : sendFile longRecording = List.replicate (audioBytes + 1) 0 := by
      simp [sendFile, Upload.pcmBuf, longRecording]
    have hlong : audioBytes ≤ (sendFile longRecording).length := by
      rw [hsend, List.length_replicate]
      exact Nat.le_succ _
    refine ⟨_, exec_upload_read [] (by decide) hlong (le_refl _) [], fun hgood => ?_⟩
    rw [read_uploaded hlong] at hgood
    have hpcm : longRecording.pcm = (sendFile longRecording).take audioBytes :=
      Option.some.inj (hgood 0 _ rfl)
    have hcut := congrArg List.length hpcm
    rw [show longRecording.pcm.length = audioBytes + 1 from List.length_replicate, List.length_take,
      Nat.min_eq_left hlong] at hcut
    omega

end CourseDesign.Voice
