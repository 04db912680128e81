import CourseDesign.Attendance.Server
import CourseDesign.Terminal.Tasks

/-!
# Card IDs over an undelimited stream

`tcp_client_task` sends each card ID as decimal text with nothing between two of them; the server
takes whatever one `readAll` returns for one ID.  TCP may cut and merge the stream anywhere.

* `Framed` — each registered ID arrives as a chunk of its own, and no other chunk spells one.
* `recorded_eq_sends_iff_framed` — exactly then the rows are the registered sends.
-/

namespace CourseDesign.Attendance

open Terminal (sprintfLlu)

/-- The sends, each with its position in the stream. -/
def sends (ids : List ℕ) : List (ℕ × List UInt8) := Stream.located 0 (ids.map sprintfLlu)

/-- What the server is handed, each chunk with its position in the stream. -/
def chunks (arrivals : List Arrival) : List (ℕ × List UInt8) :=
  Stream.located 0 (arrivals.map Arrival.array)

/-- How the stream has to be cut. -/
structure Framed (ids : List ℕ) (arrivals : List Arrival) : Prop where
  /-- The text of a registered card is neither cut nor merged with a neighbour. -/
  whole : ∀ x ∈ sends ids, Registered x.2 → x ∈ chunks arrivals
  /-- A chunk that spells a registered card is the text of one send. -/
  genuine : ∀ x ∈ chunks arrivals, Registered x.2 → x ∈ sends ids

/-- The hypothesis on TCP and Qt: the chunks are nonempty and carry the bytes sent. -/
structure Delivers (ids : List ℕ) (arrivals : List Arrival) : Prop where
  nonempty : ∀ a ∈ arrivals, a.array ≠ []
  bytes : (arrivals.map Arrival.array).flatten = (ids.map sprintfLlu).flatten

theorem Delivers.ne_zero {ids : List ℕ} {arrivals : List Arrival} (h : Delivers ids arrivals) :
    ∀ a ∈ arrivals, ∀ b ∈ a.array, b ≠ 0 := by
  intro a ha b hb
  have hmem : b ∈ (ids.map sprintfLlu).flatten := by
    rw [← h.bytes]
    exact List.mem_flatten.mpr ⟨a.array, List.mem_map_of_mem ha, hb⟩
  obtain ⟨str, hstr, hb⟩ := List.mem_flatten.mp hmem
  obtain ⟨id, -, rfl⟩ := List.mem_map.mp hstr
  exact ((Decimal.text_digits id).2 b hb).ne_zero

/-- The wanted pieces of the two cuts agree exactly when the stream is framed. -/
theorem registeredOnly_eq_iff_framed {ids : List ℕ} {arrivals : List Arrival}
    (h : Delivers ids arrivals) :
    registeredOnly (chunks arrivals) = registeredOnly (sends ids) ↔ Framed ids arrivals := by
  have hchunks : ∀ p ∈ arrivals.map Arrival.array, p ≠ [] := by
    simpa using h.nonempty
  have hsends : ∀ p ∈ ids.map sprintfLlu, p ≠ [] := by
    intro p hp
    obtain ⟨id, -, rfl⟩ := List.mem_map.mp hp
    exact (Decimal.text_digits id).1
  have hcuts := Stream.filter_located_eq_iff (fun str => decide (Registered str)) hchunks hsends 0
  simp only [decide_eq_true_eq] at hcuts
  rw [registeredOnly, registeredOnly, chunks, sends, hcuts]
  constructor
  · intro hiff
    exact ⟨fun x hx hr => (hiff x.1 x.2 hr).mpr hx, fun x hx hr => (hiff x.1 x.2 hr).mp hx⟩
  · intro hframed o str hr
    exact ⟨fun hx => hframed.genuine _ hx hr, fun hx => hframed.whole _ hx hr⟩

theorem framed_of_chunks_eq {ids : List ℕ} {arrivals : List Arrival}
    (h : arrivals.map Arrival.array = ids.map sprintfLlu) : Framed ids arrivals := by
  have heq : chunks arrivals = sends ids := by rw [chunks, sends, h]
  exact ⟨fun x hx _ => heq ▸ hx, fun x hx _ => heq ▸ hx⟩

/-- **Framing, exactly.**  However TCP cuts and merges the stream of any card IDs, the server handles
every chunk, and

* its rows, each with the place of its bytes in the stream, are the sends of registered IDs, one row
  per send and in order, if and only if the stream came framed;
* then the `cardid` column is the list of the registered IDs sent;
* and if all IDs sent are registered, the column alone is right only if the stream came framed. -/
theorem recorded_eq_sends_iff_framed {ids : List ℕ} {arrivals : List Arrival}
    (h : Delivers ids arrivals) :
    ∃ s, server.exec server.init arrivals = some s ∧
      (s.recorded = registeredOnly (sends ids) ↔ Framed ids arrivals) ∧
      (Framed ids arrivals →
        s.nima.map Row.cardid = (ids.map sprintfLlu).filter fun str => Registered str) ∧
      ((∀ id ∈ ids, Registered (sprintfLlu id)) →
        (s.nima.map Row.cardid = ids.map sprintfLlu ↔ Framed ids arrivals)) := by
  obtain ⟨s, hs, hlen, hrec⟩ := recorded_exec (s := server.init) rfl h.ne_zero
  have hrecorded : s.recorded = registeredOnly (chunks arrivals) := hrec
  have hcolumn : ∀ {o : ℕ} {ps : List (List UInt8)},
      (registeredOnly (Stream.located o ps)).map Prod.snd = ps.filter fun str => Registered str := by
    intro o ps
    rw [← Stream.map_snd_located o ps, List.filter_map, Stream.map_snd_located]
    rfl
  have hcardid : s.nima.map Row.cardid =
      (arrivals.map Arrival.array).filter fun str => Registered str := by
    rw [cardid_eq_of_recorded hlen, hrecorded]
    exact hcolumn
  have hiff := registeredOnly_eq_iff_framed h
  have hframed : Framed ids arrivals →
      s.nima.map Row.cardid = (ids.map sprintfLlu).filter fun str => Registered str := by
    intro hf
    rw [cardid_eq_of_recorded hlen, hrecorded, hiff.mpr hf]
    exact hcolumn
  refine ⟨s, hs, by rw [hrecorded, hiff], hframed, fun hall => ⟨fun heq => ?_, fun hf => ?_⟩⟩
  · -- rows that carry the whole stream leave no chunk without a row
    rw [hcardid] at heq
    have hself := Stream.filter_eq_self_of_flatten (by simpa using h.nonempty)
      ((congrArg List.flatten heq).trans h.bytes.symm)
    exact framed_of_chunks_eq (hself.symm.trans heq)
  · rw [hframed hf, List.filter_eq_self]
    simpa using hall

/-- Two registered cards, merged into one chunk, leave no row. -/
theorem merged_cards_leave_no_row :
    let ids := [580826361761, 406629893939]
    let arrivals : List Arrival := [⟨"", (ids.map sprintfLlu).flatten⟩]
    Delivers ids arrivals ∧ (∀ id ∈ ids, Registered (sprintfLlu id)) ∧
      ∃ s, server.exec server.init arrivals = some s ∧ s.nima.map Row.cardid = [] := by
  refine ⟨⟨by decide, by decide⟩, by decide, ?_⟩
  exact server.exists_exec server.init _ (fun s => s.nima.map Row.cardid = []) (by decide +kernel)

/-- The same two cards in a chunk each: two rows. -/
theorem separate_cards_are_recorded :
    let ids := [580826361761, 406629893939]
    let arrivals := ids.map fun id => Arrival.mk "" (sprintfLlu id)
    ∃ s, server.exec server.init arrivals = some s ∧
      s.nima.map Row.cardid = ids.map sprintfLlu := by
  intro ids arrivals
  have harrays : arrivals.map Arrival.array = ids.map sprintfLlu := rfl
  have hdelivers : Delivers ids arrivals := ⟨by decide, rfl⟩
  obtain ⟨s, hs, -, -, hall⟩ := recorded_eq_sends_iff_framed hdelivers
  exact ⟨s, hs, (hall (by decide)).mpr (framed_of_chunks_eq harrays)⟩

end CourseDesign.Attendance
