import CourseDesign.Attendance.Server
import CourseDesign.Lib.PlaceMarker
import Mathlib.Data.List.FinRange

/-!
# The table of many clients

`Widget::Widget` connects every socket to one handler, which the event loop calls for one chunk at a
time; all that the handler keeps is table `nima`.  So the clients' chunks are one sequence, and each
names its client.  Beside the table this module has the texts that `sql_insert` passes to
`query.exec`, put together by `QString::arg`.

* `widget_step` — a chunk that spells the card at index `i` adds the row of `i` and executes the
  statement of `i`; any other does nothing.
* `server_of_widget` — the table is the one a single client would have filled with the same chunks.
* `table_sound` — so the table, and every SQL text, is made of entries of the two arrays, of the
  system time and of the location, and the two lookups never leave the arrays.
-/

namespace CourseDesign.Attendance

open PlaceMarker (arg arg_append)

/-! ## The SQL text -/

/-- The characters of an ASCII text. -/
def chars (text : List UInt8) : List Char := text.map fun b => Char.ofNat b.toNat

/-- What `QDateTime::currentDateTime` returns. -/
structure SystemTime where
  year : ℕ
  month : ℕ
  day : ℕ
  hour : ℕ
  minute : ℕ
  second : ℕ
  deriving DecidableEq, Repr

/-- A number with leading zeros up to a width. -/
def padded (width n : ℕ) : List Char := chars (List.leftpad width 0x30 (Decimal.text n))

/-- `toString("yyyy-MM-dd hh:mm:ss")`. -/
def SystemTime.text (t : SystemTime) : List Char :=
  padded 4 t.year ++ '-' :: padded 2 t.month ++ '-' :: padded 2 t.day ++
    ' ' :: padded 2 t.hour ++ ':' :: padded 2 t.minute ++ ':' :: padded 2 t.second

/-- The index at which the loop of `sql_insert` stops. -/
def insertIndex (str : List UInt8) : ℕ :=
  (qstrCardId.take cardDataMax).findIdx fun cardId => str == cardId

/-- The statement `sql_insert` executes; `none` is a read outside the arrays. -/
def insertText (str : List UInt8) (now : String) : Option (List Char) := do
  let i := insertIndex str
  let name ← qstrCardName[i]?
  let cardid ← qstrCardId[i]?
  let sql :=
    "insert into nima (name, cardid, time, location) values ('%1', '%2', '%3', '%4')".toList
  return arg (arg (arg (arg sql name.toList) (chars cardid)) now.toList) "北门".toList

/-! ## The clients -/

/-- What `readAll` returns for a client, and the system time. -/
structure Chunk (ι : Type*) where
  client : ι
  time : SystemTime
  array : List UInt8

variable {ι : Type*}

def Chunk.arrival (c : Chunk ι) : Arrival := ⟨String.ofList c.time.text, c.array⟩

/-- The statements one call of the handler executes. -/
def statements (a : Arrival) : Option (List (List Char)) :=
  let strBuf := qString a.array
  if qstrCardDataCheck strBuf then (insertText strBuf a.now).map fun sql => [sql] else some []

/-- The table, and a record of the statements executed. -/
structure Widget where
  nima : List Row
  executed : List (List Char)
  deriving DecidableEq, Repr

/-- The server of any clients, from an empty table on. -/
def widget (ι : Type*) : Machine Widget (Chunk ι) where
  init := { nima := [], executed := [] }
  step s c := do
    let nima ← readyRead s.nima c.arrival
    let executed ← statements c.arrival
    return { nima := nima, executed := s.executed ++ executed }

/-! ## The two arrays -/

def idAt (i : Fin cardDataMax) : List UInt8 := qstrCardId.get (i.cast rfl)

def nameAt (i : Fin cardDataMax) : String := qstrCardName.get (i.cast rfl)

theorem qstrCardId_getElem (i : Fin cardDataMax) : qstrCardId[i.val]? = some (idAt i) := by
  revert i
  decide +kernel

theorem qstrCardName_getElem (i : Fin cardDataMax) : qstrCardName[i.val]? = some (nameAt i) := by
  revert i
  decide +kernel

/-- The loop of `sql_insert` stops at the entry it looks for: no card is listed twice. -/
theorem insertIndex_idAt (i : Fin cardDataMax) : insertIndex (idAt i) = i := by
  revert i
  decide +kernel

/-- The card a text spells. -/
def cardIndex (text : List UInt8) : Option (Fin cardDataMax) :=
  (List.finRange cardDataMax).find? fun i => text == idAt i

theorem cardIndex_eq_some {text : List UInt8} {i : Fin cardDataMax} :
    cardIndex text = some i ↔ text = idAt i := by
  constructor
  · intro h
    simpa using List.find?_some h
  · rintro rfl
    revert i
    decide +kernel

/-- The check accepts a text exactly if it spells a card. -/
theorem check_eq_isSome (text : List UInt8) :
    qstrCardDataCheck text = (cardIndex text).isSome := by
  rw [Bool.eq_iff_iff, qstrCardDataCheck_iff, Registered, List.mem_iff_get,
    Option.isSome_iff_exists]
  constructor
  · rintro ⟨i, hi⟩
    exact ⟨i.cast rfl, cardIndex_eq_some.mpr hi.symm⟩
  · rintro ⟨i, hi⟩
    exact ⟨i.cast rfl, (cardIndex_eq_some.mp hi).symm⟩

/-! ## What the handler does -/

/-- The row of the card at an index. -/
def rowAt (time : SystemTime) (i : Fin cardDataMax) : Row :=
  ⟨nameAt i, idAt i, String.ofList time.text, "北门"⟩

/-- The statement that inserts four values. -/
def insertInto (name cardid time location : List Char) : List Char :=
  "insert into nima (name, cardid, time, location) values ('".toList ++ (name ++
    ("', '".toList ++ (cardid ++ ("', '".toList ++ (time ++ ("', '".toList ++
      (location ++ "')".toList)))))))

/-- The statement for the card at an index. -/
def insertAt (time : SystemTime) (i : Fin cardDataMax) : List Char :=
  insertInto (nameAt i).toList (chars (idAt i)) time.text "北门".toList

theorem sqlInsert_idAt (i : Fin cardDataMax) (now : String) (nima : List Row) :
    sqlInsert (idAt i) now nima = some (nima ++ [⟨nameAt i, idAt i, now, "北门"⟩]) := by
  have hindex : (qstrCardId.take cardDataMax).findIdx (fun cardId => idAt i == cardId) = i :=
    insertIndex_idAt i
  simp only [sqlInsert, hindex, qstrCardId_getElem, qstrCardName_getElem]
  rfl

theorem percent_not_mem_padded (width n : ℕ) : '%' ∉ padded width n := by
  intro hmem
  obtain ⟨b, hb, hchar⟩ := List.mem_map.mp hmem
  have hdigit : Decimal.IsDigit b := by
    rw [List.leftpad, List.mem_append, List.mem_replicate] at hb
    rcases hb with ⟨-, rfl⟩ | hb
    · exact ⟨by decide, by decide⟩
    · exact (Decimal.text_digits n).2 b hb
  obtain ⟨hlow, hhigh⟩ := hdigit
  generalize b.toNat = k at hchar hlow hhigh
  interval_cases k <;> simp at hchar

theorem percent_not_mem_text (t : SystemTime) : '%' ∉ t.text := by
  simp [SystemTime.text, percent_not_mem_padded]

/-- No entry of the arrays brings a place marker into the text. -/
theorem percent_not_mem_entries (i : Fin cardDataMax) :
    '%' ∉ (nameAt i).toList ∧ '%' ∉ chars (idAt i) := by
  revert i
  decide +kernel

/-- Each `arg` fills in the marker it is meant for, if no value has a marker in it. -/
theorem arg_insertInto {name cardid time : List Char} (location : List Char) (hname : '%' ∉ name)
    (hid : '%' ∉ cardid) (htime : '%' ∉ time) :
    arg (arg (arg (arg
      "insert into nima (name, cardid, time, location) values ('%1', '%2', '%3', '%4')".toList
        name) cardid) time) location = insertInto name cardid time location := by
  set head := "insert into nima (name, cardid, time, location) values ('".toList
  set sep := "', '".toList
  have hhead : '%' ∉ head := by decide
  have hsep : '%' ∉ sep := by decide
  have hfirst : arg (head ++ "%1', '%2', '%3', '%4')".toList) name =
      head ++ (name ++ (sep ++ "%2', '%3', '%4')".toList)) := by
    rw [arg_append _ hhead]
    rfl
  have hsecond : arg (head ++ (name ++ (sep ++ "%2', '%3', '%4')".toList))) cardid =
      head ++ (name ++ (sep ++ (cardid ++ (sep ++ "%3', '%4')".toList)))) := by
    rw [arg_append _ hhead, arg_append _ hname, arg_append _ hsep]
    rfl
  have hthird : arg (head ++ (name ++ (sep ++ (cardid ++ (sep ++ "%3', '%4')".toList))))) time =
      head ++ (name ++ (sep ++ (cardid ++ (sep ++ (time ++ (sep ++ "%4')".toList)))))) := by
    rw [arg_append _ hhead, arg_append _ hname, arg_append _ hsep, arg_append _ hid,
      arg_append _ hsep]
    rfl
  calc _ = arg (arg (arg (arg (head ++ "%1', '%2', '%3', '%4')".toList) name) cardid) time)
        location := rfl
    _ = arg (head ++ (name ++ (sep ++ (cardid ++ (sep ++ (time ++ (sep ++ "%4')".toList)))))))
        location := by rw [hfirst, hsecond, hthird]
    _ = insertInto name cardid time location := by
        rw [arg_append _ hhead, arg_append _ hname, arg_append _ hsep, arg_append _ hid,
          arg_append _ hsep, arg_append _ htime, arg_append _ hsep]
        rfl

theorem insertText_idAt (i : Fin cardDataMax) (time : SystemTime) :
    insertText (idAt i) (String.ofList time.text) = some (insertAt time i) := by
  obtain ⟨hname, hid⟩ := percent_not_mem_entries i
  simp only [insertText, insertIndex_idAt, qstrCardId_getElem, qstrCardName_getElem,
    Option.bind_eq_bind, Option.bind_some, String.toList_ofList]
  exact congrArg some (arg_insertInto _ hname hid (percent_not_mem_text time))

/-- The card a chunk spells. -/
def Chunk.card (c : Chunk ι) : Option (Fin cardDataMax) := cardIndex (qString c.array)

/-- The rows, and the statements, that a chunk gives rise to. -/
def Chunk.row (c : Chunk ι) : Option Row := c.card.map (rowAt c.time)

def Chunk.insert (c : Chunk ι) : Option (List Char) := c.card.map (insertAt c.time)

/-- The check lets a chunk through exactly if it spells a card. -/
theorem Chunk.card_cases (c : Chunk ι) :
    c.card = none ∧ qstrCardDataCheck (qString c.array) = false ∨
      ∃ i, c.card = some i ∧ qString c.array = idAt i ∧ qstrCardDataCheck (idAt i) = true := by
  cases hcard : c.card with
  | none =>
      have hnone : cardIndex (qString c.array) = none := hcard
      exact Or.inl ⟨rfl, by rw [check_eq_isSome, hnone, Option.isSome_none]⟩
  | some i =>
      have hspells : qString c.array = idAt i := cardIndex_eq_some.mp hcard
      refine Or.inr ⟨i, rfl, hspells, ?_⟩
      rw [check_eq_isSome, cardIndex_eq_some.mpr rfl, Option.isSome_some]

/-- What the check lets through, `sql_insert` finds. -/
theorem readyRead_row (nima : List Row) (c : Chunk ι) :
    readyRead nima c.arrival = some (nima ++ c.row.toList) := by
  rcases c.card_cases with ⟨hcard, hcheck⟩ | ⟨i, hcard, hspells, hcheck⟩
  · simp [readyRead, Chunk.arrival, Chunk.row, hcard, hcheck]
  · simp [readyRead, Chunk.arrival, Chunk.row, hcard, hspells, hcheck, sqlInsert_idAt, rowAt]

theorem statements_insert (c : Chunk ι) : statements c.arrival = some c.insert.toList := by
  rcases c.card_cases with ⟨hcard, hcheck⟩ | ⟨i, hcard, hspells, hcheck⟩
  · simp [statements, Chunk.arrival, Chunk.insert, hcard, hcheck]
  · simp [statements, Chunk.arrival, Chunk.insert, hcard, hspells, hcheck, insertText_idAt]

/-! ## Runs -/

/-- **Step lemma.** -/
theorem widget_step (s : Widget) (c : Chunk ι) :
    (widget ι).step s c = some
      { nima := s.nima ++ c.row.toList, executed := s.executed ++ c.insert.toList } := by
  simp [widget, readyRead_row, statements_insert]

/-- **Run lemma.** -/
theorem widget_exec (s : Widget) (chunks : List (Chunk ι)) :
    (widget ι).exec s chunks = some
      { nima := s.nima ++ chunks.filterMap Chunk.row
        executed := s.executed ++ chunks.filterMap Chunk.insert } := by
  induction chunks generalizing s with
  | nil => simp
  | cons c chunks ih =>
      simp only [Machine.exec, widget_step, Option.bind_some, ih, List.filterMap_cons]
      cases c.row <;> cases c.insert <;> simp

/-- **The clients share one table**: it is what one client would fill with the same chunks. -/
theorem server_of_widget {u : Server} (chunks : List (Chunk ι)) :
    ∃ v, server.exec u (chunks.map Chunk.arrival) = some v ∧
      v.nima = u.nima ++ chunks.filterMap Chunk.row := by
  induction chunks generalizing u with
  | nil => exact ⟨u, rfl, by simp⟩
  | cons c chunks ih =>
      have hstep : ∃ w, server.step u c.arrival = some w ∧ w.nima = u.nima ++ c.row.toList := by
        simp [server, readyRead_row]
      obtain ⟨w, hw, hnima⟩ := hstep
      obtain ⟨v, hv, hrest⟩ := ih (u := w)
      refine ⟨v, (server.exec_cons_eq_some).mpr ⟨w, hw, hv⟩, ?_⟩
      rw [hrest, hnima, List.filterMap_cons]
      cases c.row <;> simp

/-! ## The table -/

/-- **The attendance table is sound.**  For any chunks of any clients in any order, every array
access of `sql_insert` is inside the arrays, and

* a chunk is recorded if its text is an entry of `qstr_card_id`, which then is the only one, and
  does nothing otherwise;
* the table has one row for each of these chunks, in the order they came, with the entries of both
  arrays at the one index;
* the SQL texts executed are made of the same entries, the system time and the location. -/
theorem table_sound (chunks : List (Chunk ι)) :
    (∀ (c : Chunk ι) i, c.card = some i ↔ qString c.array = idAt i) ∧
      (∀ str, qstrCardDataCheck str = true → insertIndex str < cardDataMax) ∧
      (∀ s (c : Chunk ι), c.card = none → (widget ι).step s c = some s) ∧
      ∃ s, (widget ι).exec (widget ι).init chunks = some s ∧
        s.nima = chunks.filterMap (fun c => c.card.map (rowAt c.time)) ∧
        s.executed = chunks.filterMap fun c => c.card.map (insertAt c.time) := by
  refine ⟨fun c i => cardIndex_eq_some, fun str hstr => ?_, fun s c hcard => ?_, ?_⟩
  · rw [check_eq_isSome] at hstr
    obtain ⟨i, hi⟩ := Option.isSome_iff_exists.mp hstr
    rw [cardIndex_eq_some.mp hi, insertIndex_idAt]
    exact i.isLt
  · rw [widget_step]
    simp [Chunk.row, Chunk.insert, hcard]
  · exact ⟨_, widget_exec _ chunks, rfl, rfl⟩

/-- Two clients: what follows a zero byte is not part of the text, a missing digit is missed. -/
example :
    ((widget Bool).exec (widget Bool).init
      [⟨true, ⟨2021, 6, 1, 8, 0, 0⟩, Decimal.text 406629893939 ++ [0, 39, 41]⟩,
        ⟨false, ⟨2021, 6, 1, 8, 0, 0⟩, (Decimal.text 406629893939).dropLast⟩]).map Widget.nima =
      some [⟨"李大四", Decimal.text 406629893939, "2021-06-01 08:00:00", "北门"⟩] := by
  decide +kernel

end CourseDesign.Attendance
