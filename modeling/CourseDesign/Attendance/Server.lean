import CourseDesign.Lib.Machine
import CourseDesign.Lib.Decimal
import CourseDesign.Lib.Stream
import Mathlib.Data.List.TakeWhile

/-!
# The attendance server

The `readyRead` handler of `widget.cpp` with `qstr_card_data_check` and `sql_insert` of
`card_data.cpp`: what one `readAll` adds to table `nima`.  A text is its bytes; the table of cards
holds ASCII digits only.

* `readyRead_eq` — the handler is total, and adds the row of a registered text and nothing else.
* `recorded_exec` — a run records the registered ones among the chunks it was handed.
-/

namespace CourseDesign.Attendance

def cardDataMax : ℕ := 10

def qstrCardId : List (List UInt8) :=
  List.map Decimal.text
    [580826361761, 406629893939, 406629893941, 406629893942, 406629893943, 406629893944,
      406629893945, 406629893946, 406629893947, 406629893948]

def qstrCardName : List String :=
  ["张小三", "李大四", "王大五", "赵老六", "孙可七", "周里八", "吴十九", "郑十三", "钱十一", "孙十二"]

/-- A row of `nima`; `keyid` is never given. -/
structure Row where
  name : String
  cardid : List UInt8
  time : String
  location : String
  deriving DecidableEq, Repr

def qstrCardDataCheck (str : List UInt8) : Bool :=
  (qstrCardId.take cardDataMax).any fun cardId => str == cardId

/-- `sql_insert`: the loop stops at the first entry equal to `str` or after the last one, and both
arrays are read at the index it stopped at; `none` is a read outside them. -/
def sqlInsert (str : List UInt8) (now : String) (nima : List Row) : Option (List Row) := do
  let i := (qstrCardId.take cardDataMax).findIdx fun cardId => str == cardId
  let name ← qstrCardName[i]?
  let cardid ← qstrCardId[i]?
  return nima ++ [⟨name, cardid, now, "北门"⟩]

/-- One `readyRead`: what `readAll` returns, and the system time as the row shows it. -/
structure Arrival where
  now : String
  array : List UInt8
  deriving DecidableEq, Repr

/-- `QString(array)`, which ends at the first zero byte. -/
def qString (array : List UInt8) : List UInt8 := array.takeWhile fun b => b ≠ 0

/-- The `readyRead` handler, as far as `nima` is concerned. -/
def readyRead (nima : List Row) (a : Arrival) : Option (List Row) :=
  let strBuf := qString a.array
  if qstrCardDataCheck strBuf then sqlInsert strBuf a.now nima else some nima

/-! ## What the handler does -/

/-- The cards of the table, as a set. -/
def Registered (str : List UInt8) : Prop := str ∈ qstrCardId

instance (str : List UInt8) : Decidable (Registered str) :=
  inferInstanceAs (Decidable (str ∈ qstrCardId))

theorem qstrCardDataCheck_iff {str : List UInt8} :
    qstrCardDataCheck str = true ↔ Registered str := by
  have htake : qstrCardId.take cardDataMax = qstrCardId := rfl
  simp [qstrCardDataCheck, Registered, htake]

/-- Both arrays are as long as the loop is. -/
theorem sqlInsert_registered {str : List UInt8} (now : String) (nima : List Row)
    (h : Registered str) :
    ∃ name, sqlInsert str now nima = some (nima ++ [⟨name, str, now, "北门"⟩]) := by
  have htake : qstrCardId.take cardDataMax = qstrCardId := rfl
  have hlen : qstrCardName.length = qstrCardId.length := rfl
  have hlt : qstrCardId.findIdx (fun cardId => str == cardId) < qstrCardId.length :=
    List.findIdx_lt_length_of_exists ⟨str, h, by simp⟩
  have hget : str = qstrCardId[qstrCardId.findIdx fun cardId => str == cardId] := by
    simpa using List.findIdx_getElem (w := hlt)
  refine ⟨qstrCardName[qstrCardId.findIdx fun cardId => str == cardId], ?_⟩
  simp only [sqlInsert, htake]
  rw [List.getElem?_eq_getElem (hlen ▸ hlt), List.getElem?_eq_getElem hlt, ← hget]
  rfl

/-- **The handler.**  On bytes without a zero it adds one row for a registered text, the text being
its `cardid`, and leaves the table alone for any other. -/
theorem readyRead_eq (nima : List Row) {a : Arrival} (hz : ∀ b ∈ a.array, b ≠ 0) :
    ∃ rows, readyRead nima a = some (nima ++ rows) ∧
      rows.map Row.cardid = if Registered a.array then [a.array] else [] := by
  have hq : qString a.array = a.array := by
    rw [qString, List.takeWhile_eq_self_iff]
    simpa using hz
  by_cases hr : Registered a.array
  · obtain ⟨name, hins⟩ := sqlInsert_registered a.now nima hr
    refine ⟨[⟨name, a.array, a.now, "北门"⟩], ?_, by simp [hr]⟩
    simp [readyRead, hq, qstrCardDataCheck_iff.mpr hr, hins]
  · have hcheck : qstrCardDataCheck a.array = false := by
      rw [Bool.eq_false_iff]
      exact fun h => hr (qstrCardDataCheck_iff.mp h)
    exact ⟨[], by simp [readyRead, hq, hcheck], by simp [hr]⟩

/-! ## Runs -/

/-- The table, and two records that no statement of the source reads: the number of bytes read so
far, and for each row the position in the stream of the chunk that caused it. -/
structure Server where
  nima : List Row
  received : ℕ
  origins : List ℕ
  deriving DecidableEq, Repr

/-- The server of one connection, from an empty table on (`delete from nima`). -/
def server : Machine Server Arrival where
  init := { nima := [], received := 0, origins := [] }
  step s a := (readyRead s.nima a).map fun nima =>
    { nima := nima
      received := s.received + a.array.length
      origins := s.origins ++ List.replicate (nima.length - s.nima.length) s.received }

/-- The rows as located card texts. -/
def Server.recorded (s : Server) : List (ℕ × List UInt8) := s.origins.zip (s.nima.map Row.cardid)

def registeredOnly (xs : List (ℕ × List UInt8)) : List (ℕ × List UInt8) :=
  xs.filter fun x => Registered x.2

/-- **Step lemma.**  A chunk without a zero byte is recorded where it began, if it is registered. -/
theorem server_step {s : Server} {a : Arrival} (hlen : s.origins.length = s.nima.length)
    (hz : ∀ b ∈ a.array, b ≠ 0) :
    ∃ t, server.step s a = some t ∧ t.origins.length = t.nima.length ∧
      t.received = s.received + a.array.length ∧
      t.recorded = s.recorded ++ registeredOnly [(s.received, a.array)] := by
  obtain ⟨rows, hread, hrows⟩ := readyRead_eq s.nima hz
  have hstep : server.step s a = some
      { nima := s.nima ++ rows
        received := s.received + a.array.length
        origins := s.origins ++
          List.replicate ((s.nima ++ rows).length - s.nima.length) s.received } := by
    simp only [server, hread, Option.map_some]
  refine ⟨_, hstep, by simp [hlen], rfl, ?_⟩
  have hzip : s.origins.length = (s.nima.map Row.cardid).length := by rw [List.length_map, hlen]
  simp only [Server.recorded, List.map_append, List.length_append, Nat.add_sub_cancel_left]
  rw [List.zip_append hzip, hrows]
  have hn : rows.length = (if Registered a.array then [a.array] else []).length := by
    rw [← hrows, List.length_map]
  by_cases hr : Registered a.array
  · simp [registeredOnly, hn, hr]
  · simp [registeredOnly, hn, hr]

/-- **Run lemma.**  The server records the registered ones among the chunks, in order. -/
theorem recorded_exec {s : Server} {arrivals : List Arrival}
    (hlen : s.origins.length = s.nima.length) (hz : ∀ a ∈ arrivals, ∀ b ∈ a.array, b ≠ 0) :
    ∃ t, server.exec s arrivals = some t ∧ t.origins.length = t.nima.length ∧
      t.recorded = s.recorded ++
        registeredOnly (Stream.located s.received (arrivals.map Arrival.array)) := by
  induction arrivals generalizing s with
  | nil => exact ⟨s, rfl, hlen, by simp [registeredOnly]⟩
  | cons a arrivals ih =>
      obtain ⟨u, hu, hulen, hrecv, hrec⟩ := server_step hlen (hz a (by simp))
      obtain ⟨t, ht, htlen, hrest⟩ := ih hulen fun b hb => hz b (by simp [hb])
      refine ⟨t, (server.exec_cons_eq_some).mpr ⟨u, hu, ht⟩, htlen, ?_⟩
      rw [hrest, hrec, hrecv, List.append_assoc, List.map_cons, Stream.located_cons]
      simp only [registeredOnly]
      rw [← List.filter_append]
      rfl

theorem cardid_eq_of_recorded {s : Server} (hlen : s.origins.length = s.nima.length) :
    s.nima.map Row.cardid = s.recorded.map Prod.snd := by
  rw [Server.recorded, List.map_snd_zip]
  rw [List.length_map, hlen]

end CourseDesign.Attendance
