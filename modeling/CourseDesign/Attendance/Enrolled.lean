import CourseDesign.Attendance.Server
import CourseDesign.Terminal.Tasks
import CourseDesign.Lib.LittleEndian

/-!
# Who is enrolled: the terminal and the server

The terminal looks the number of a card up in `card_correct_id`, the server its decimal text in
`qstr_card_id`.  `rc522_sn_to_u64` (`rc522.c`) makes the number out of the five bytes of the tag.

* `rc522SnToU64_eq`, `rc522SnToU64_lt` — it is the little-endian number of the bytes, and fits.
* `cardIdJudge_iff`, `dataCheck_text_iff` — the two lookups as membership of a number.
* `agree_iff` — the two sides agree on a card if and only if it is not one of ten.
-/

namespace CourseDesign.Attendance

open Terminal (cardIdJudge cardCorrectId sprintfLlu)

/-- `rc522_sn_to_u64`, from the null pointer or from the five bytes of a tag. -/
def rc522SnToU64 : Option (Vector UInt8 5) → ℕ
  | none => 0
  | some sn =>
      [4, 3, 2, 1, 0].foldl (fun result (i : Fin 5) => result ||| (sn[i].toNat <<< (i.val * 8))) 0

theorem rc522SnToU64_eq (sn : Vector UInt8 5) :
    rc522SnToU64 (some sn) = LittleEndian.number sn.toList := by
  obtain ⟨⟨bytes⟩, hsize⟩ := sn
  match bytes, hsize with
  | [b₀, b₁, b₂, b₃, b₄], _ =>
      calc rc522SnToU64 (some ⟨⟨[b₀, b₁, b₂, b₃, b₄]⟩, _⟩)
          = (0 ||| b₄.toNat <<< 32 ||| b₃.toNat <<< 24 ||| b₂.toNat <<< 16 ||| b₁.toNat <<< 8 |||
              b₀.toNat <<< 0) := rfl
        _ = b₀.toNat + 256 * (b₁.toNat + 256 * (b₂.toNat + 256 * (b₃.toNat + 256 * b₄.toNat))) := by
          rw [Nat.zero_or, LittleEndian.shiftLeft_or_byte _ 3, LittleEndian.shiftLeft_or_byte _ 2,
            LittleEndian.shiftLeft_or_byte _ 1, LittleEndian.shiftLeft_or_byte _ 0, zero_mul,
            Nat.shiftLeft_zero]
        _ = LittleEndian.number [b₀, b₁, b₂, b₃, b₄] := by simp

/-- The `uint64_t` the number is computed in has room for it. -/
theorem rc522SnToU64_lt (sn : Vector UInt8 5) : rc522SnToU64 (some sn) < 2 ^ 40 := by
  have hlt := LittleEndian.number_lt sn.toList
  rw [Vector.length_toList] at hlt
  rw [rc522SnToU64_eq]
  exact hlt

/-! ## The two lookups -/

/-- The cards in the server's table that the terminal does not know. -/
def serverOnly : List ℕ :=
  [406629893939, 406629893941, 406629893942, 406629893943, 406629893944, 406629893945,
    406629893946, 406629893947, 406629893948]

/-- The table of ten has one card in it; the rest of it accepts the number zero. -/
theorem cardIdJudge_iff (n : ℕ) :
    cardIdJudge n cardCorrectId = true ↔ n = 580826361761 ∨ n = 0 := by
  simp [cardIdJudge, cardCorrectId]

theorem dataCheck_text_iff (n : ℕ) :
    qstrCardDataCheck (sprintfLlu n) = true ↔ n = 580826361761 ∨ n ∈ serverOnly := by
  rw [qstrCardDataCheck_iff, Registered, qstrCardId, sprintfLlu,
    List.mem_map_of_injective Decimal.text_injective, List.mem_cons]
  rfl

/-- The handler adds a row for what `sprintf` printed exactly if the check accepts it. -/
theorem row_stored_iff (n : ℕ) (nima : List Row) (now : String) :
    (∃ row, readyRead nima ⟨now, sprintfLlu n⟩ = some (nima ++ [row])) ↔
      qstrCardDataCheck (sprintfLlu n) = true := by
  have hz : ∀ b ∈ sprintfLlu n, b ≠ 0 := fun b hb => ((Decimal.text_digits n).2 b hb).ne_zero
  obtain ⟨rows, hread, hrows⟩ := readyRead_eq nima (a := ⟨now, sprintfLlu n⟩) hz
  rw [qstrCardDataCheck_iff, hread]
  constructor
  · rintro ⟨row, hrow⟩
    obtain rfl : rows = [row] := List.append_cancel_left (Option.some.inj hrow)
    by_contra hnot
    rw [if_neg hnot] at hrows
    simp at hrows
  · intro hreg
    rw [if_pos hreg] at hrows
    obtain ⟨row, rfl, -⟩ := List.map_eq_singleton_iff.mp hrows
    exact ⟨row, rfl⟩

/-! ## The agreement -/

/-- The terminal shows Success for this tag exactly if the server's check accepts its text, and
exactly if the server stores a row for it. -/
def Agree (sn : Vector UInt8 5) : Prop :=
  (cardIdJudge (rc522SnToU64 (some sn)) cardCorrectId = true ↔
      qstrCardDataCheck (sprintfLlu (rc522SnToU64 (some sn))) = true) ∧
    ∀ nima now, cardIdJudge (rc522SnToU64 (some sn)) cardCorrectId = true ↔
      ∃ row, readyRead nima ⟨now, sprintfLlu (rc522SnToU64 (some sn))⟩ = some (nima ++ [row])

/-- **Who is enrolled.**  The two sides agree on a tag if and only if its number is neither zero
nor one of the nine cards that only the server knows. -/
theorem agree_iff (sn : Vector UInt8 5) :
    Agree sn ↔ LittleEndian.number sn.toList ∉ 0 :: serverOnly := by
  have hzero : 0 ∉ serverOnly := by decide
  have hshared : 580826361761 ∉ serverOnly := by decide
  have hverdicts : (cardIdJudge (LittleEndian.number sn.toList) cardCorrectId = true ↔
      qstrCardDataCheck (sprintfLlu (LittleEndian.number sn.toList)) = true) ↔
        LittleEndian.number sn.toList ∉ 0 :: serverOnly := by
    rw [cardIdJudge_iff, dataCheck_text_iff, List.mem_cons]
    by_cases h₀ : LittleEndian.number sn.toList = 0
    · simp [h₀, hzero]
    · by_cases h₁ : LittleEndian.number sn.toList = 580826361761
      · simp [h₁, hshared]
      · simp [h₀, h₁]
  simp only [Agree, rc522SnToU64_eq, row_stored_iff, forall_const, and_self]
  exact hverdicts

/-- The tag of 李大四 (406629893939): its check byte is right, the terminal shows Fail and the
server stores a row.  And a tag of zeros: the terminal shows Success and the server stores none. -/
theorem sides_disagree :
    (cardIdJudge (rc522SnToU64 (some #v[51, 199, 7, 173, 94])) cardCorrectId = false ∧
      readyRead [] ⟨"08:00:00", sprintfLlu (rc522SnToU64 (some #v[51, 199, 7, 173, 94]))⟩ =
        some [⟨"李大四", sprintfLlu 406629893939, "08:00:00", "北门"⟩] ∧
      ¬ Agree #v[51, 199, 7, 173, 94]) ∧
    (cardIdJudge (rc522SnToU64 (some #v[0, 0, 0, 0, 0])) cardCorrectId = true ∧
      readyRead [] ⟨"08:00:00", sprintfLlu (rc522SnToU64 (some #v[0, 0, 0, 0, 0]))⟩ = some [] ∧
      ¬ Agree #v[0, 0, 0, 0, 0]) := by
  have hfour : ¬ Agree #v[51, 199, 7, 173, 94] := by
    intro h
    have hverdict := h.1.mpr (by decide +kernel)
    exact absurd hverdict (by decide +kernel)
  have hzeros : ¬ Agree #v[0, 0, 0, 0, 0] := by
    intro h
    have hcheck := h.1.mp (by decide +kernel)
    exact absurd hcheck (by decide +kernel)
  refine ⟨⟨?_, ?_, hfour⟩, ?_, ?_, hzeros⟩
  all_goals decide +kernel

end CourseDesign.Attendance
