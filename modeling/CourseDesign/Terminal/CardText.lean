import CourseDesign.Attendance.Enrolled

/-!
# The text of a card

`card_id_str` has 20 bytes, one too few for the largest `uint64_t`.  Both tasks `sprintf` the number
of a card into it, `display_task` over whatever it holds.

* `sprintfCardId_ne_none_iff` — the numbers for which there is room.
* `cString_sprintfCardId` — the string in the array is then the text, whatever was there before.
* `card_text_unique` — the five bytes of a tag always fit, read back, and are told apart.
-/

namespace CourseDesign.Terminal

open Attendance (rc522SnToU64 rc522SnToU64_eq rc522SnToU64_lt)

/-- `char card_id_str[20]`. -/
abbrev CardIdStr := Vector UInt8 20

/-- The string in a `char` array: the bytes before the first NUL. -/
def cString (array : CardIdStr) : List UInt8 := array.toList.takeWhile fun b => b ≠ 0

/-- `sprintf(card_id_str, "%llu", n)`: the text and its NUL, if they fit, over what was there. -/
def sprintfCardId (n : ℕ) (old : CardIdStr) : Option CardIdStr :=
  if h : (sprintfLlu n).length + 1 ≤ 20 then
    some ⟨(sprintfLlu n ++ 0 :: old.toList.drop ((sprintfLlu n).length + 1)).toArray, by simp; omega⟩
  else none

/-- One of the two tasks formats the number of this tag, and the text is what `card_id_str` has
then. -/
def Formats (sn : Vector UInt8 5) (text : List UInt8) : Prop :=
  ∃ s t a, (a = .tcpFormat ∨ a = .displayFormat) ∧ s.cardId = rc522SnToU64 (some sn) ∧
    terminal.step s a = some t ∧ t.cardIdStr = text

/-- **Room for the text** and its NUL is there for 19 digits. -/
theorem sprintfCardId_ne_none_iff (n : ℕ) (old : CardIdStr) :
    sprintfCardId n old ≠ none ↔ n < 10 ^ 19 := by
  have hfits : (sprintfLlu n).length + 1 ≤ 20 ↔ n < 10 ^ 19 := by
    rw [← Decimal.length_text_le_iff (by decide), sprintfLlu]
    omega
  rw [sprintfCardId, ← hfits]
  split
  · simp_all
  · simp_all

/-- **The string is the text**, whatever the array held. -/
theorem cString_sprintfCardId {n : ℕ} {old new : CardIdStr} (h : sprintfCardId n old = some new) :
    cString new = sprintfLlu n := by
  rw [sprintfCardId] at h
  split at h
  · obtain rfl := Option.some.inj h
    have hdigits : ∀ b ∈ sprintfLlu n, decide (b ≠ 0) = true := by
      intro b hb
      exact decide_eq_true ((Decimal.text_digits n).2 b hb).ne_zero
    simp only [cString, Vector.toList]
    rw [List.takeWhile_append_of_pos hdigits]
    simp
  · cases h

/-- What either task formats is the text of the number. -/
theorem formats_iff (sn : Vector UInt8 5) (text : List UInt8) :
    Formats sn text ↔ text = sprintfLlu (rc522SnToU64 (some sn)) := by
  constructor
  · rintro ⟨s, t, a, rfl | rfl, hcard, hstep, rfl⟩
    · obtain ⟨-, rfl⟩ := Machine.when_eq_some.mp hstep
      rw [← hcard]
    · obtain ⟨-, rfl⟩ := Machine.when_eq_some.mp hstep
      rw [← hcard]
  · rintro rfl
    exact ⟨{ terminal.init with cardId := rc522SnToU64 (some sn), tcp := .format }, _, .tcpFormat,
      Or.inl rfl, rfl, rfl, rfl⟩

/-- **The text of a card.**  Whatever `card_id_str` held, the text of every tag fits it with its NUL
and reads back as the little-endian number of the five bytes, which has 40 bits; and two tags never
have the same text, in whichever of the two tasks. -/
theorem card_text_unique :
    (∀ (sn : Vector UInt8 5) (old : CardIdStr), ∃ new,
      sprintfCardId (rc522SnToU64 (some sn)) old = some new ∧ Formats sn (cString new) ∧
        Decimal.readDigits (cString new) = LittleEndian.number sn.toList ∧
        LittleEndian.number sn.toList < 2 ^ 40) ∧
      ∀ sn sn' text, Formats sn text → Formats sn' text → sn = sn' := by
  constructor
  · intro sn old
    have hlt : rc522SnToU64 (some sn) < 2 ^ 40 := rc522SnToU64_lt sn
    have hroom : sprintfCardId (rc522SnToU64 (some sn)) old ≠ none :=
      (sprintfCardId_ne_none_iff _ old).mpr (by omega)
    obtain ⟨new, hnew⟩ := Option.ne_none_iff_exists'.mp hroom
    have htext := cString_sprintfCardId hnew
    refine ⟨new, hnew, (formats_iff sn _).mpr htext, ?_, ?_⟩
    · rw [htext, sprintfLlu, Decimal.readDigits_text, rc522SnToU64_eq]
    · rw [← rc522SnToU64_eq]
      exact hlt
  · intro sn sn' text h h'
    have htexts : sprintfLlu (rc522SnToU64 (some sn)) = sprintfLlu (rc522SnToU64 (some sn')) :=
      ((formats_iff sn text).mp h).symm.trans ((formats_iff sn' text).mp h')
    have hnumbers := Decimal.text_injective htexts
    rw [rc522SnToU64_eq, rc522SnToU64_eq] at hnumbers
    exact Vector.toList_inj.mp (LittleEndian.number_inj (by simp) hnumbers)

end CourseDesign.Terminal
