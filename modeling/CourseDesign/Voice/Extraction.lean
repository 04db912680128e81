import Mathlib.Data.List.Basic
import Mathlib.Data.List.Infix
import Mathlib.Data.Nat.Notation

/-!
# Taking the ID out of a reply

`Extraction` of the voice client: it looks for the first `id=` in the 1024 bytes of `recvbuf`, for
the quotes around the ID, and copies what is between them to `result`.  Neither the look-ahead of
the comparison nor the search for the quotes nor the copy knows the ends of the arrays; an access
outside them is a `Fault` that names the index.

* `scan_skip`, `extraction_firstId` — the loop over `recvbuf` up to the first `id=`.
* `extractAt_eq` — where the quotes are.
* `copyId_eq` — what the copy leaves in `result`.
* `extraction_of_hasId` — a reply with an ID that fits yields that ID.
-/

namespace CourseDesign.Voice

def recvMaxSize : ℕ := 1024

/-- An access outside `recvbuf` or `result`. -/
inductive Fault where
  | readOutside (i : ℕ)
  | writeOutside (i : ℕ)
  deriving DecidableEq, Repr

/-- `recvbuf[i]`. -/
def readBuf (recvbuf : List UInt8) (i : ℕ) : Except Fault UInt8 :=
  match recvbuf[i]? with
  | some b => .ok b
  | none => .error (.readOutside i)

/-- `result[c] = b`. -/
def writeResult (result : List UInt8) (c : ℕ) (b : UInt8) : Except Fault (List UInt8) :=
  if c < result.length then .ok (result.set c b) else .error (.writeOutside c)

/-- `recvbuf[i] == 'i' && recvbuf[i+1] == 'd' && recvbuf[i+2] == '='`, from left to right. -/
def isId (recvbuf : List UInt8) (i : ℕ) : Except Fault Bool := do
  if (← readBuf recvbuf i) ≠ 0x69 then return false
  if (← readBuf recvbuf (i + 1)) ≠ 0x64 then return false
  return (← readBuf recvbuf (i + 2)) == 0x3D

/-- `for(;;j++) if(recvbuf[j] == '"') break;` over the bytes from `j` on. -/
def findQuote : List UInt8 → ℕ → Except Fault ℕ
  | [], j => .error (.readOutside j)
  | b :: bs, j => if b = 0x22 then .ok j else findQuote bs (j + 1)

/-- `left` rounds of `result[c] = recvbuf[a]; c++; a++`. -/
def copyId (recvbuf : List UInt8) : ℕ → ℕ → ℕ → List UInt8 → Except Fault (List UInt8)
  | 0, _, _, result => .ok result
  | left + 1, a, c, result => do
      let b ← readBuf recvbuf a
      let result ← writeResult result c b
      copyId recvbuf left (a + 1) (c + 1) result

/-- The body of the `if`, for an `id=` at `i`. -/
def extractAt (recvbuf result : List UInt8) (i : ℕ) : Except Fault (List UInt8) := do
  let idStart := (← findQuote (recvbuf.drop i) i) + 1
  let idEnd ← findQuote (recvbuf.drop (i + 4)) (i + 4)
  copyId recvbuf (idEnd - idStart) idStart 0 result

/-- The loop from `i` on, with `left` rounds to go. -/
def scan (recvbuf result : List UInt8) : ℕ → ℕ → Except Fault (List UInt8)
  | _, 0 => .ok result
  | i, left + 1 => do
      if ← isId recvbuf i then extractAt recvbuf result i
      else scan recvbuf result (i + 1) left

/-- `Extraction`: the contents of `result` afterwards. -/
def extraction (recvbuf result : List UInt8) : Except Fault (List UInt8) :=
  scan recvbuf result 0 1024

/-! ## The search for `id=` -/

def idAt (bs : List UInt8) (i : ℕ) : Bool := [0x69, 0x64, 0x3D].isPrefixOf (bs.drop i)

def firstId (bs : List UInt8) : Option ℕ := (List.range bs.length).find? (idAt bs)

theorem firstId_eq_none {bs : List UInt8} (h : firstId bs = none) (j : ℕ) : idAt bs j = false := by
  rcases Nat.lt_or_ge j bs.length with hj | hj
  · have hall := List.find?_eq_none.mp h j (List.mem_range.mpr hj)
    simpa using hall
  · rw [idAt, List.drop_eq_nil_of_le hj]
    rfl

theorem firstId_eq_some {bs : List UInt8} {i : ℕ} (h : firstId bs = some i) :
    idAt bs i = true ∧ ∀ j < i, idAt bs j = false := by
  refine ⟨List.find?_some h, fun j hj => ?_⟩
  rw [firstId, List.find?_range_eq_some] at h
  simpa using h.2.2 j hj

theorem lt_of_idAt {bs : List UInt8} {i : ℕ} (h : idAt bs i = true) : i + 2 < bs.length := by
  obtain ⟨rest, hrest⟩ := List.isPrefixOf_iff_prefix.mp h
  have hlen := congrArg List.length hrest
  simp only [List.length_append, List.length_drop, List.length_cons, List.length_nil] at hlen
  omega

theorem readBuf_eq {bs : List UInt8} {i : ℕ} (h : i < bs.length) : readBuf bs i = .ok bs[i] := by
  rw [readBuf, List.getElem?_eq_getElem h]

/-- Away from the end of the array the comparison is what it is meant to be. -/
theorem isId_eq {bs : List UInt8} {i : ℕ} (h : i + 2 < bs.length) : isId bs i = .ok (idAt bs i) := by
  have hdrop : bs.drop i = bs[i] :: bs[i + 1] :: bs[i + 2] :: bs.drop (i + 3) := by
    rw [List.drop_eq_getElem_cons (by omega), List.drop_eq_getElem_cons (by omega),
      List.drop_eq_getElem_cons h]
  have hat : idAt bs i = (bs[i] == 0x69 && (bs[i + 1] == 0x64 && bs[i + 2] == 0x3D)) := by
    rw [idAt, hdrop, BEq.comm (a := bs[i]), BEq.comm (a := bs[i + 1]), BEq.comm (a := bs[i + 2])]
    simp only [List.isPrefixOf, Bool.and_true]
  rw [hat, isId, readBuf_eq (by omega), readBuf_eq (by omega), readBuf_eq h]
  by_cases hi : bs[i] = 0x69
  · by_cases hd : bs[i + 1] = 0x64
    · simp [hi, hd, bind, Except.bind, pure, Except.pure]
    · simp [hi, hd, bind, Except.bind, pure, Except.pure]
  · simp [hi, bind, Except.bind, pure, Except.pure]

/-- A byte that does not fit the pattern stops the comparison before it looks any further. -/
theorem isId_of_byte {bs : List UInt8} {i : ℕ} {b : UInt8}
    (h : (bs[i]? = some b ∧ b ≠ 0x69) ∨ (bs[i + 1]? = some b ∧ b ≠ 0x64) ∨
      (bs[i + 2]? = some b ∧ b ≠ 0x3D)) : isId bs i = .ok false := by
  rcases h with ⟨hget, hb⟩ | ⟨hget, hb⟩ | ⟨hget, hb⟩
  · rw [isId, readBuf, hget]
    simp [hb, bind, Except.bind, pure, Except.pure]
  · obtain ⟨hlt, -⟩ := List.getElem?_eq_some_iff.mp hget
    rw [isId, readBuf_eq (by omega), readBuf, hget]
    by_cases hi : bs[i] = 0x69 <;> simp [hi, hb, bind, Except.bind, pure, Except.pure]
  · obtain ⟨hlt, rfl⟩ := List.getElem?_eq_some_iff.mp hget
    have hat : idAt bs i = false := by
      rw [Bool.eq_false_iff]
      intro hat
      obtain ⟨rest, hrest⟩ := List.isPrefixOf_iff_prefix.mp hat
      refine hb ?_
      have hthird := congrArg (fun l => l[2]?) hrest
      simp only [List.getElem?_drop, hget] at hthird
      simpa using hthird.symm
    rw [isId_eq hlt, hat]

/-- An `id=` inside a prefix of the array is seen by the prefix alone. -/
theorem idAt_append {bs : List UInt8} {i : ℕ} (h : i + 2 < bs.length) (rest : List UInt8) :
    idAt (bs ++ rest) i = idAt bs i := by
  rw [idAt, idAt, List.drop_append_of_le_length (by omega), Bool.eq_iff_iff,
    List.isPrefixOf_iff_prefix, List.isPrefixOf_iff_prefix]
  constructor
  · intro hp
    refine List.prefix_of_prefix_length_le hp (List.prefix_append _ _) ?_
    simp only [List.length_cons, List.length_nil, List.length_drop]
    omega
  · intro hp
    exact hp.trans (List.prefix_append _ _)

/-- The loop passes over everything that is no `id=`. -/
theorem scan_skip {bs result : List UInt8} {m : ℕ} (hm : m ≤ 1024)
    (hno : ∀ j < m, isId bs j = .ok false) :
    extraction bs result = scan bs result m (1024 - m) := by
  induction m with
  | zero => rfl
  | succ m ih =>
      rw [ih (by omega) fun j hj => hno j (by omega)]
      have hleft : 1024 - m = (1024 - (m + 1)) + 1 := by omega
      rw [hleft, scan, hno m (by omega)]
      rfl

/-- **The first `id=` decides**, whatever follows the bytes it was found in. -/
theorem extraction_firstId {bs rest result : List UInt8} {i : ℕ} (hi : firstId bs = some i)
    (hlen : bs.length ≤ 1024) :
    extraction (bs ++ rest) result = extractAt (bs ++ rest) result i := by
  obtain ⟨hat, hbefore⟩ := firstId_eq_some hi
  have hroom := lt_of_idAt hat
  have hisId : ∀ j ≤ i, isId (bs ++ rest) j = .ok (idAt bs j) := by
    intro j hj
    rw [isId_eq (by rw [List.length_append]; omega), idAt_append (by omega)]
  rw [scan_skip (m := i) (by omega) fun j hj => by rw [hisId j (by omega), hbefore j hj]]
  have hleft : 1024 - i = (1024 - (i + 1)) + 1 := by omega
  rw [hleft, scan, hisId i (le_refl i), hat]
  rfl

/-! ## The quotes and the copy -/

/-- The search finds the first quote, or runs off the end. -/
theorem findQuote_eq (bs : List UInt8) (j : ℕ) :
    findQuote bs j =
      if 0x22 ∈ bs then .ok (j + bs.idxOf 0x22) else .error (.readOutside (j + bs.length)) := by
  induction bs generalizing j with
  | nil => simp [findQuote]
  | cons b bs ih =>
      rw [findQuote]
      by_cases hb : b = 0x22
      · simp [hb]
      · rw [if_neg hb, ih, List.idxOf_cons_ne _ hb]
        by_cases hmem : 0x22 ∈ bs
        · rw [if_pos hmem, if_pos (List.mem_cons_of_mem _ hmem)]
          congr 1
          omega
        · have hnot : 0x22 ∉ b :: bs := by simp [hmem, Ne.symm hb]
          rw [if_neg hmem, if_neg hnot, List.length_cons]
          congr 2
          omega

/-- **The copy** of `left` bytes from `a` on: it overwrites that many bytes of `result`, or runs off
its end. -/
theorem copyId_eq {bs : List UInt8} {left a : ℕ} (ha : a + left ≤ bs.length) {c : ℕ}
    {result : List UInt8} (hc : c ≤ result.length) :
    copyId bs left a c result =
      if c + left ≤ result.length then
        .ok (result.take c ++ (bs.drop a).take left ++ result.drop (c + left))
      else .error (.writeOutside result.length) := by
  induction left generalizing a c result with
  | zero => simp [copyId, hc]
  | succ left ih =>
      have hlt : a < bs.length := by omega
      have hstep : copyId bs (left + 1) a c result =
          (writeResult result c bs[a]).bind fun r => copyId bs left (a + 1) (c + 1) r := by
        rw [copyId, readBuf_eq hlt]
        rfl
      rw [hstep, writeResult]
      by_cases hroom : c < result.length
      · have hfit : c + 1 ≤ (result.set c bs[a]).length := by
          rw [List.length_set]
          omega
        have hrec := ih (a := a + 1) (by omega) hfit
        have hsum : c + 1 + left = c + (left + 1) := by omega
        rw [if_pos hroom, Except.bind, hrec, List.length_set, hsum, List.drop_eq_getElem_cons hlt,
          List.take_succ_cons, List.drop_set_of_lt (by omega), List.take_succ_eq_append_getElem hfit]
        simp [List.take_set_of_le (le_refl c)]
      · have hend : c = result.length := by omega
        rw [if_neg hroom, if_neg (by omega), hend]
        rfl

/-- **The branch of an `id=`.**  With a quote after its third byte, the text between the first quote
from `id=` on and the first quote after `id="` is copied; without one, the search runs off the end.
-/
theorem extractAt_eq {bs : List UInt8} {i : ℕ} (result : List UInt8) (hi : i + 4 ≤ bs.length) :
    extractAt bs result i =
      if 0x22 ∈ bs.drop (i + 4) then
        copyId bs (i + 4 + (bs.drop (i + 4)).idxOf 0x22 - (i + (bs.drop i).idxOf 0x22 + 1))
          (i + (bs.drop i).idxOf 0x22 + 1) 0 result
      else .error (.readOutside bs.length) := by
  have hend : ∀ k, k ≤ bs.length → k + (bs.drop k).length = bs.length := by
    intro k hk
    rw [List.length_drop]
    omega
  have hsub : 0x22 ∈ bs.drop (i + 4) → 0x22 ∈ bs.drop i := by
    rw [← List.drop_drop]
    exact fun h => List.mem_of_mem_drop h
  rw [extractAt, findQuote_eq, findQuote_eq, hend _ hi, hend i (by omega)]
  by_cases hq : 0x22 ∈ bs.drop (i + 4)
  · rw [if_pos hq, if_pos hq, if_pos (hsub hq)]
    rfl
  · rw [if_neg hq, if_neg hq]
    by_cases hp : 0x22 ∈ bs.drop i
    · rw [if_pos hp]
      rfl
    · rw [if_neg hp]
      rfl

/-- The quotes found in a prefix are found in the whole, and so is the text between them. -/
theorem extractAt_append {bs rest result : List UInt8} {i : ℕ} (hq : 0x22 ∈ bs.drop (i + 4)) :
    extractAt (bs ++ rest) result i = extractAt bs result i := by
  have hi : i + 4 < bs.length := by
    by_contra hge
    rw [List.drop_eq_nil_of_le (by omega)] at hq
    simp at hq
  have hp : 0x22 ∈ bs.drop i := by
    rw [← List.drop_drop] at hq
    exact List.mem_of_mem_drop hq
  have hdrop : ∀ k ≤ i + 4, (bs ++ rest).drop k = bs.drop k ++ rest :=
    fun k hk => List.drop_append_of_le_length (by omega)
  have hq' : 0x22 ∈ (bs ++ rest).drop (i + 4) := by
    rw [hdrop _ (le_refl _)]
    exact List.mem_append_left _ hq
  have hidx : (bs.drop (i + 4)).idxOf 0x22 < (bs.drop (i + 4)).length :=
    List.idxOf_lt_length_of_mem hq
  rw [List.length_drop] at hidx
  rw [extractAt_eq _ (by rw [List.length_append]; omega), extractAt_eq _ (by omega), if_pos hq,
    if_pos hq', hdrop _ (le_refl _), hdrop i (by omega), List.idxOf_append_of_mem hq,
    List.idxOf_append_of_mem hp]
  generalize hstart : i + (bs.drop i).idxOf 0x22 + 1 = a
  generalize hstop : i + 4 + (bs.drop (i + 4)).idxOf 0x22 = e
  rcases Nat.lt_or_ge a e with hae | hea
  · rw [copyId_eq (by rw [List.length_append]; omega) (Nat.zero_le _),
      copyId_eq (by omega) (Nat.zero_le _), List.drop_append_of_le_length (by omega),
      List.take_append_of_le_length (by rw [List.length_drop]; omega)]
  · rw [Nat.sub_eq_zero_of_le hea]
    rfl

/-! ## A reply with an ID -/

/-- The first `id=` of the text is that of `id="v"`. -/
def HasId (text v : List UInt8) : Prop :=
  ∃ before after, text = before ++ ([0x69, 0x64, 0x3D, 0x22] ++ (v ++ 0x22 :: after)) ∧
    firstId text = some before.length ∧ 0x22 ∉ v

/-- An ID in a zeroed array of ten bytes. -/
def padded (v : List UInt8) : List UInt8 := v ++ List.replicate (10 - v.length) 0

/-- **The ID of a reply** is what `Extraction` leaves in a zeroed `result`, if it fits. -/
theorem extraction_of_hasId {text rest v : List UInt8} (h : HasId text v) (hfit : v.length ≤ 10)
    (hlen : text.length ≤ 1024) :
    extraction (text ++ rest) (List.replicate 10 0) = .ok (padded v) := by
  obtain ⟨before, after, htext, hfirst, hv⟩ := h
  have hdrop : text.drop (before.length + 4) = v ++ 0x22 :: after := by
    rw [htext, List.drop_append]
    simp
  have hdrop0 : text.drop before.length = [0x69, 0x64, 0x3D, 0x22] ++ (v ++ 0x22 :: after) := by
    rw [htext, List.drop_left]
  have hquote : 0x22 ∈ text.drop (before.length + 4) := by
    rw [hdrop]
    simp
  have hroom : before.length + 4 + v.length ≤ text.length := by
    rw [htext]
    simp only [List.length_append, List.length_cons, List.length_nil]
    omega
  have hp : (text.drop before.length).idxOf 0x22 = 3 := by
    rw [hdrop0]
    rfl
  have hq : (text.drop (before.length + 4)).idxOf 0x22 = v.length := by
    rw [hdrop, List.idxOf_append_of_notMem hv]
    simp
  have hleft : before.length + 4 + v.length - (before.length + 3 + 1) = v.length := by omega
  have hzero : 0 + v.length ≤ (List.replicate 10 (0 : UInt8)).length := by
    rw [List.length_replicate]
    omega
  rw [extraction_firstId hfirst hlen, extractAt_append hquote, extractAt_eq _ (by omega),
    if_pos hquote, hp, hq, hleft, copyId_eq (by omega) (Nat.zero_le _), if_pos hzero, hdrop,
    Nat.zero_add, List.drop_replicate]
  simp [padded]

end CourseDesign.Voice
