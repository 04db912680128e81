import CourseDesign.Sensor.Coordinator

/-!
# What the handlers read of a packet

The handlers of incoming packets take fixed offsets of `pkt->cmd.Data` and never look at
`pkt->cmd.DataLength`, which the sender chose.  Behind the last byte of the data lies the rest of
the heap; a handler that reads it works on bytes no one sent.

* `readsOwn_printSample`, `readsOwn_flash` — the two kinds of cases: one needs 37 bytes, the other
  three, and with them nothing behind them makes a difference.
* `readsOwn_iff` — the packets for which both handlers keep to the packet.
-/

namespace CourseDesign.Sensor

/-- `SampleApp_MessageMSGCB` of the end device. -/
def endDeviceMessageMSGCB (pkt : Packet) : Except ℕ (List Effect) :=
  match pkt.clusterId with
  | 2 => flash pkt
  | _ => .ok []

/-- The packet with the heap behind its data. -/
def Packet.followedBy (pkt : Packet) (heap : List UInt8) : Packet :=
  { pkt with data := pkt.data ++ heap }

/-- The handler reads bytes of the packet only, and what it does is the same whatever lies behind
them. -/
structure ReadsOwn (handler : Packet → Except ℕ (List Effect)) (pkt : Packet) : Prop where
  inside : ∃ effects, handler pkt = .ok effects
  same : ∀ heap, handler (pkt.followedBy heap) = handler pkt

/-- The length each cluster takes for granted. -/
def bytesRead : ℕ → ℕ
  | 2 => 3
  | 3 => 37
  | 4 => 37
  | _ => 0

/-- A read behind the data is one of memory the packet does not have. -/
theorem read_error {pkt : Packet} {i : ℕ} (h : pkt.data.length ≤ i) : pkt.read i = .error i := by
  rw [Packet.read, List.getElem?_eq_none h]

theorem read_followedBy {pkt : Packet} {i : ℕ} (heap : List UInt8) (h : i < pkt.data.length) :
    (pkt.followedBy heap).read i = pkt.read i := by
  rw [Packet.read, Packet.read, Packet.followedBy, List.getElem?_append_left h]

/-- The six fields of 36 bytes are the same with more bytes behind them. -/
theorem fields_append {frame : List UInt8} (heap : List UInt8) (h : 36 ≤ frame.length) :
    fields (frame ++ heap) = fields frame := by
  refine List.map_congr_left fun k hk => ?_
  have hk6 := List.mem_range.mp hk
  rw [List.drop_append_of_le_length (by omega),
    List.take_append_of_le_length (by rw [List.length_drop]; omega)]

/-- A point-to-point cluster needs 37 bytes: its first read is that of byte 36. -/
theorem readsOwn_printSample (device : List UInt8) (pkt : Packet) :
    ReadsOwn (printSample device) pkt ↔ 37 ≤ pkt.data.length := by
  constructor
  · rintro ⟨⟨effects, heff⟩, -⟩
    by_contra hshort
    rw [printSample, read_error (by omega)] at heff
    exact absurd heff (by simp [bind, Except.bind])
  · intro hlen
    refine ⟨⟨_, printSample_of_le hlen⟩, fun heap => ?_⟩
    have hlong : 36 < (pkt.followedBy heap).data.length := by
      rw [Packet.followedBy, List.length_append]
      omega
    have hget : (pkt.followedBy heap).data[36] = pkt.data[36] := List.getElem_append_left hlen
    have hfields : fields (pkt.followedBy heap).data = fields pkt.data := fields_append heap (by omega)
    rw [printSample_of_le hlen, printSample_of_le hlong, hget, hfields]

/-- The flash cluster needs three bytes. -/
theorem readsOwn_flash (pkt : Packet) : ReadsOwn flash pkt ↔ 3 ≤ pkt.data.length := by
  constructor
  · rintro ⟨⟨effects, heff⟩, -⟩
    by_contra hshort
    rw [flash, read_error (i := 2) (by omega)] at heff
    rcases Nat.lt_or_ge 1 pkt.data.length with hlt | hge
    · rw [read_eq hlt] at heff
      exact absurd heff (by simp [bind, Except.bind])
    · rw [read_error hge] at heff
      exact absurd heff (by simp [bind, Except.bind])
  · intro hlen
    refine ⟨?_, fun heap => ?_⟩
    · rw [flash, read_eq (by omega : 1 < pkt.data.length), read_eq (by omega : 2 < pkt.data.length)]
      exact ⟨_, rfl⟩
    · rw [flash, flash, read_followedBy heap (by omega), read_followedBy heap (by omega)]

/-- The other clusters read nothing. -/
theorem readsOwn_nothing (pkt : Packet) : ReadsOwn (fun _ => .ok []) pkt :=
  ⟨⟨[], rfl⟩, fun _ => rfl⟩

/-- Only what a handler does with packets of this cluster matters. -/
theorem readsOwn_congr (handler branch : Packet → Except ℕ (List Effect)) {pkt : Packet}
    (h : ∀ data, handler { pkt with data := data } = branch { pkt with data := data }) :
    ReadsOwn handler pkt ↔ ReadsOwn branch pkt := by
  constructor
  · rintro ⟨⟨effects, heff⟩, hsame⟩
    exact ⟨⟨effects, (h pkt.data).symm.trans heff⟩,
      fun heap => (h _).symm.trans ((hsame heap).trans (h pkt.data))⟩
  · rintro ⟨⟨effects, heff⟩, hsame⟩
    exact ⟨⟨effects, (h pkt.data).trans heff⟩,
      fun heap => (h _).trans ((hsame heap).trans (h pkt.data).symm)⟩

/-- The coordinator needs as many bytes as the cluster takes for granted. -/
theorem readsOwn_coordinator (pkt : Packet) :
    ReadsOwn messageMSGCB pkt ↔ bytesRead pkt.clusterId ≤ pkt.data.length := by
  obtain ⟨c, data⟩ := pkt
  match c with
  | 2 => exact (readsOwn_congr messageMSGCB flash fun _ => rfl).trans (readsOwn_flash _)
  | 3 =>
      exact (readsOwn_congr messageMSGCB (printSample ed1) fun _ => rfl).trans
        (readsOwn_printSample ed1 _)
  | 4 =>
      exact (readsOwn_congr messageMSGCB (printSample ed2) fun _ => rfl).trans
        (readsOwn_printSample ed2 _)
  | 0 | 1 | _ + 5 =>
      exact (readsOwn_congr messageMSGCB (fun _ => .ok []) fun _ => rfl).trans
        (iff_of_true (readsOwn_nothing _) (Nat.zero_le _))

/-- The end device has the flash cluster only. -/
theorem readsOwn_endDevice (pkt : Packet) :
    ReadsOwn endDeviceMessageMSGCB pkt ↔ (pkt.clusterId = 2 → 3 ≤ pkt.data.length) := by
  obtain ⟨c, data⟩ := pkt
  by_cases hc : c = 2
  · have hflash : ∀ d, endDeviceMessageMSGCB ⟨c, d⟩ = flash ⟨c, d⟩ := by
      intro d
      rw [hc]
      rfl
    rw [readsOwn_congr _ flash hflash, readsOwn_flash]
    simp [hc]
  · have hother : ∀ d, endDeviceMessageMSGCB ⟨c, d⟩ = .ok [] := by
      intro d
      rw [endDeviceMessageMSGCB]
      split
      · contradiction
      · rfl
    rw [readsOwn_congr _ (fun _ => .ok []) hother]
    exact iff_of_true (readsOwn_nothing _) fun h => absurd h hc

/-- **Radio packets, exactly.**  For every packet, of any cluster, length and content, both handlers
read only the packet's own bytes, and what they do depends on nothing else, if and only if a packet
of a point-to-point cluster has at least 37 bytes and one of the flash cluster at least three. -/
theorem handlers_readOwn_iff (pkt : Packet) :
    (ReadsOwn messageMSGCB pkt ∧ ReadsOwn endDeviceMessageMSGCB pkt) ↔
      bytesRead pkt.clusterId ≤ pkt.data.length := by
  rw [readsOwn_coordinator, readsOwn_endDevice, and_iff_left_iff_imp]
  intro hlen hc
  rwa [hc] at hlen

/-- An empty packet of the flash cluster, and a sample without its last byte, with an `X` behind it
in memory. -/
theorem short_packets_read_heap :
    ¬ ReadsOwn endDeviceMessageMSGCB ⟨2, []⟩ ∧
      ¬ ReadsOwn messageMSGCB ⟨3, List.replicate 36 0x30⟩ ∧
      messageMSGCB ((Packet.mk 3 (List.replicate 36 0x30)).followedBy [0x58]) ≠ .ok [] := by
  refine ⟨?_, ?_, by decide⟩
  · rintro ⟨⟨effects, heff⟩, -⟩
    exact absurd heff (by simp [endDeviceMessageMSGCB, flash, Packet.read, bind, Except.bind])
  · rintro ⟨⟨effects, heff⟩, -⟩
    have hread : messageMSGCB ⟨3, List.replicate 36 0x30⟩ = .error 36 := by decide
    exact absurd (hread.symm.trans heff) (by simp)

end CourseDesign.Sensor
