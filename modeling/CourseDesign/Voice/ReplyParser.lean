import CourseDesign.Voice.Extraction

/-!
# The reply parser on any reply

`Extraction` on a `recvbuf` with any 1024 bytes in it, as `recv` may leave them there.

* `extraction_none` — without an `id=`, the comparison looks past the array if the array ends in the
  middle of one, and nothing is written otherwise.
* `extractAt_unclosed`, `extractAt_attached`, `extractAt_detached` — the branch of an `id=`: the
  start is searched from `id=` on and the end from one byte after `id=`, so the two quotes are a
  pair only if the first one follows the `=` at once.
* `staysInside_iff` — for which replies both arrays are kept to.
* `parsesId_iff` — for which replies the result is the quoted text.
-/

namespace CourseDesign.Voice

/-- `Voice` before a reply is parsed. -/
def zeroed : List UInt8 := List.replicate 10 0

/-- The array ends in `i` or in `id`. -/
def EndsInId (recvbuf : List UInt8) : Prop :=
  recvbuf[1023]? = some 0x69 ∨ recvbuf[1022]? = some 0x69 ∧ recvbuf[1023]? = some 0x64

instance (recvbuf : List UInt8) : Decidable (EndsInId recvbuf) :=
  inferInstanceAs (Decidable (_ ∨ _))

/-! ## Without an ID -/

/-- The comparison in the last two places of the array. -/
theorem isId_last {bs : List UInt8} (hlen : bs.length = 1024) :
    isId bs 1022 = (if bs[1022]? = some 0x69 ∧ bs[1023]? = some 0x64 then
        .error (.readOutside 1024) else .ok false) ∧
      isId bs 1023 = (if bs[1023]? = some 0x69 then .error (.readOutside 1024) else .ok false) := by
  have hend : readBuf bs 1024 = .error (.readOutside 1024) := by
    rw [readBuf, List.getElem?_eq_none (by omega)]
  have h1022 : 1022 < bs.length := by omega
  have h1023 : 1023 < bs.length := by omega
  rw [isId, isId, readBuf_eq h1022, readBuf_eq h1023, hend, List.getElem?_eq_getElem h1022,
    List.getElem?_eq_getElem h1023]
  by_cases hi : bs[1022] = 0x69
  · by_cases hd : bs[1023] = 0x64
    · simp [hi, hd, bind, Except.bind, pure, Except.pure]
    · by_cases hl : bs[1023] = 0x69 <;> simp [hi, hd, hl, bind, Except.bind, pure, Except.pure]
  · by_cases hl : bs[1023] = 0x69 <;> simp [hi, hl, bind, Except.bind, pure, Except.pure]

/-- No `=`, no `id=`. -/
theorem firstId_of_notMem {bs : List UInt8} (h : 0x3D ∉ bs) : firstId bs = none := by
  rw [firstId, List.find?_eq_none]
  intro j _ hat
  obtain ⟨rest, hrest⟩ := List.isPrefixOf_iff_prefix.mp hat
  refine h (List.mem_of_mem_drop (i := j) ?_)
  rw [← hrest]
  simp

/-- **Without an ID** nothing is written, and nothing outside the array is read unless its last
bytes are the start of an `id=`. -/
theorem extraction_none {bs : List UInt8} (hlen : bs.length = 1024) (hno : firstId bs = none)
    (result : List UInt8) :
    extraction bs result =
      if EndsInId bs then .error (.readOutside 1024) else .ok result := by
  have hinside : ∀ j < 1022, isId bs j = .ok false := by
    intro j hj
    rw [isId_eq (by omega), firstId_eq_none hno]
  obtain ⟨h1022, h1023⟩ := isId_last hlen
  rw [scan_skip (by omega) hinside]
  simp only [scan, h1022, h1023]
  by_cases hid : bs[1022]? = some 0x69 ∧ bs[1023]? = some 0x64
  · have hends : EndsInId bs := Or.inr hid
    rw [if_pos hid, if_pos hends]
    rfl
  · rw [if_neg hid]
    by_cases hi : bs[1023]? = some 0x69
    · have hends : EndsInId bs := Or.inl hi
      rw [if_pos hi, if_pos hends]
      rfl
    · have hends : ¬ EndsInId bs := not_or.mpr ⟨hi, hid⟩
      rw [if_neg hi, if_neg hends]
      rfl

/-! ## The branch of an `id=` -/

theorem drop_of_idAt {bs : List UInt8} {i : ℕ} (h : idAt bs i = true) :
    bs.drop i = [0x69, 0x64, 0x3D] ++ bs.drop (i + 3) := by
  obtain ⟨rest, hrest⟩ := List.isPrefixOf_iff_prefix.mp h
  rw [← hrest, ← List.drop_drop, ← hrest]
  rfl

/-- The search for the start passes over `id=`. -/
theorem idxOf_of_idAt {bs : List UInt8} {i : ℕ} (h : idAt bs i = true) :
    (bs.drop i).idxOf 0x22 = 3 + (bs.drop (i + 3)).idxOf 0x22 := by
  rw [drop_of_idAt h, List.idxOf_append_of_notMem (by decide)]
  rfl

/-- No quote after the fourth byte: the search for the end runs off the array. -/
theorem extractAt_unclosed {bs : List UInt8} {i : ℕ} (result : List UInt8) (h : idAt bs i = true)
    (hq : 0x22 ∉ bs.drop (i + 4)) : extractAt bs result i = .error (.readOutside bs.length) := by
  have hroom := lt_of_idAt h
  rcases Nat.lt_or_ge bs.length (i + 4) with hlast | hroom
  · have hp : 0x22 ∉ bs.drop i := by
      rw [drop_of_idAt h, List.drop_eq_nil_of_le (by omega)]
      decide
    rw [extractAt, findQuote_eq, if_neg hp, List.length_drop, Nat.add_sub_cancel' (by omega)]
    rfl
  · rw [extractAt_eq _ hroom, if_neg hq]

/-- The quote follows at once: the bytes up to the next one are copied. -/
theorem extractAt_attached {bs : List UInt8} {i : ℕ} (result : List UInt8) (h : idAt bs i = true)
    (hquote : bs[i + 3]? = some 0x22) (hq : 0x22 ∈ bs.drop (i + 4)) :
    extractAt bs result i = copyId bs ((bs.drop (i + 4)).idxOf 0x22) (i + 4) 0 result := by
  obtain ⟨hlt, hget⟩ := List.getElem?_eq_some_iff.mp hquote
  have hstart : (bs.drop i).idxOf 0x22 = 3 := by
    rw [idxOf_of_idAt h, List.drop_eq_getElem_cons hlt, hget, List.idxOf_cons_self]
  rw [extractAt_eq _ (by omega), if_pos hq, hstart]
  congr 1
  omega

/-- Something stands between the `=` and the quote: the two searches find the same quote, and
nothing is copied. -/
theorem extractAt_detached {bs : List UInt8} {i : ℕ} (result : List UInt8) (h : idAt bs i = true)
    (hquote : bs[i + 3]? ≠ some 0x22) (hq : 0x22 ∈ bs.drop (i + 4)) :
    extractAt bs result i = .ok result := by
  have hlt : i + 3 < bs.length := by
    by_contra hge
    rw [List.drop_eq_nil_of_le (by omega)] at hq
    simp at hq
  have hne : bs[i + 3] ≠ 0x22 := by
    intro heq
    exact hquote (by rw [List.getElem?_eq_getElem hlt, heq])
  have hstart : (bs.drop i).idxOf 0x22 = 4 + (bs.drop (i + 4)).idxOf 0x22 := by
    rw [idxOf_of_idAt h, List.drop_eq_getElem_cons hlt, List.idxOf_cons_ne _ hne,
      Nat.add_succ, ← Nat.succ_add]
  rw [extractAt_eq _ (by omega), if_pos hq, hstart, Nat.sub_eq_zero_of_le (by omega), copyId]

/-- What `Extraction` does when there is an `id=`, in terms of its branch. -/
theorem extraction_some {bs : List UInt8} {i : ℕ} (hlen : bs.length = 1024)
    (hi : firstId bs = some i) (result : List UInt8) :
    extraction bs result = extractAt bs result i := by
  have hfirst : extraction (bs ++ []) result = extractAt (bs ++ []) result i :=
    extraction_firstId hi hlen.le
  rwa [List.append_nil] at hfirst

/-! ## Memory bounds -/

/-- `Extraction` reads nothing outside `recvbuf` and writes nothing but the first nine bytes of a
zeroed `result`: with only these there it does not leave the arrays, and a tenth stays zero. -/
def StaysInside (recvbuf : List UInt8) : Prop :=
  ∃ r, extraction recvbuf (List.replicate 9 0) = .ok r ∧
    extraction recvbuf zeroed = .ok (r ++ [0])

/-- What a reply has to look like for that. -/
def InReach (recvbuf : List UInt8) : Prop :=
  match firstId recvbuf with
  | none => ¬ EndsInId recvbuf
  | some i => 0x22 ∈ recvbuf.drop (i + 4) ∧
      (recvbuf[i + 3]? = some 0x22 → (recvbuf.drop (i + 4)).idxOf 0x22 ≤ 9)

instance (recvbuf : List UInt8) : Decidable (InReach recvbuf) :=
  match hfirst : firstId recvbuf with
  | none => decidable_of_iff (¬ EndsInId recvbuf) (by rw [InReach, hfirst])
  | some i =>
      decidable_of_iff (0x22 ∈ recvbuf.drop (i + 4) ∧
        (recvbuf[i + 3]? = some 0x22 → (recvbuf.drop (i + 4)).idxOf 0x22 ≤ 9))
        (by rw [InReach, hfirst])

/-- An ID of nine bytes or less is copied the same way into nine bytes and into ten. -/
theorem copyId_nine_iff {bs : List UInt8} {left a : ℕ} (ha : a + left ≤ bs.length) :
    (∃ r, copyId bs left a 0 (List.replicate 9 0) = .ok r ∧
      copyId bs left a 0 zeroed = .ok (r ++ [0])) ↔ left ≤ 9 := by
  rw [copyId_eq ha (Nat.zero_le _), copyId_eq ha (Nat.zero_le _), zeroed, List.length_replicate,
    List.length_replicate, Nat.zero_add]
  constructor
  · rintro ⟨r, hr, -⟩
    by_contra hlong
    rw [if_neg hlong] at hr
    exact absurd hr (by simp)
  · intro hfit
    have hpad : (List.replicate 10 (0 : UInt8)).drop left = (List.replicate 9 0).drop left ++ [0] := by
      rw [List.drop_replicate, List.drop_replicate, ← List.replicate_succ', Nat.succ_sub hfit]
    refine ⟨_, if_pos hfit, ?_⟩
    rw [if_pos (by omega), hpad, ← List.append_assoc]
    rfl

/-- **Memory bounds, exactly.**  On every content of `recvbuf`, `Extraction` stays inside both
arrays if and only if there is no `id=` and the array does not end in the middle of one, or there is
a quote after the first `id=` and its next byte, and at most nine bytes before it if that next byte
is a quote. -/
theorem staysInside_iff {recvbuf : List UInt8} (hlen : recvbuf.length = recvMaxSize) :
    StaysInside recvbuf ↔ InReach recvbuf := by
  cases hfirst : firstId recvbuf with
  | none =>
      rw [StaysInside, InReach, hfirst, extraction_none hlen hfirst, extraction_none hlen hfirst]
      by_cases hends : EndsInId recvbuf
      · simp [hends]
      · simp [hends, zeroed, List.replicate_succ']
  | some i =>
      obtain ⟨hat, -⟩ := firstId_eq_some hfirst
      rw [StaysInside, InReach, hfirst, extraction_some hlen hfirst, extraction_some hlen hfirst]
      by_cases hq : 0x22 ∈ recvbuf.drop (i + 4)
      · by_cases hquote : recvbuf[i + 3]? = some 0x22
        · have hidx := List.idxOf_lt_length_of_mem hq
          rw [List.length_drop] at hidx
          rw [extractAt_attached _ hat hquote hq, extractAt_attached _ hat hquote hq,
            copyId_nine_iff (by omega)]
          simp [hq, hquote]
        · rw [extractAt_detached _ hat hquote hq, extractAt_detached _ hat hquote hq]
          simp [hq, hquote, zeroed, List.replicate_succ']
      · rw [extractAt_unclosed _ hat hq, extractAt_unclosed _ hat hq]
        simp [hq]

/-- A text at the start of a `recvbuf` that was all zeros. -/
def inRecvbuf (text : List UInt8) : List UInt8 :=
  text ++ List.replicate (recvMaxSize - text.length) 0

/-- `id="` and `v`. -/
def replyWith (v : List UInt8) : List UInt8 := inRecvbuf ([0x69, 0x64, 0x3D, 0x22] ++ v)

/-- A reply with an ID of nine bytes. -/
theorem nine_bytes_stay_inside :
    StaysInside (replyWith (List.replicate 9 0x31 ++ [0x22])) :=
  (staysInside_iff (by decide +kernel)).mpr (by decide +kernel)

/-- An ID of ten bytes, an ID without its second quote, an array that ends in `i`. -/
theorem long_open_and_cut_replies_leave_arrays :
    ¬ StaysInside (replyWith (List.replicate 10 0x31 ++ [0x22])) ∧
      ¬ StaysInside (replyWith [0x31]) ∧
      ¬ StaysInside (List.replicate 1023 0 ++ [0x69]) := by
  have hlong : extraction (replyWith (List.replicate 10 0x31 ++ [0x22])) (List.replicate 9 0) =
      .error (.writeOutside 9) := by
    decide +kernel
  have hopen : extraction (replyWith [0x31]) (List.replicate 9 0) =
      .error (.readOutside 1024) := by
    decide +kernel
  have hcut : extraction (List.replicate 1023 0 ++ [0x69]) (List.replicate 9 0) =
      .error (.readOutside 1024) := by
    have hno : firstId (List.replicate 1023 0 ++ [0x69]) = none :=
      firstId_of_notMem (by decide +kernel)
    have hends : EndsInId (List.replicate 1023 0 ++ [0x69]) := by decide +kernel
    rw [extraction_none (by decide +kernel) hno, if_pos hends]
  refine ⟨?_, ?_, ?_⟩
  · rintro ⟨r, hr, -⟩
    exact absurd (hlong.symm.trans hr) (by simp)
  · rintro ⟨r, hr, -⟩
    exact absurd (hopen.symm.trans hr) (by simp)
  · rintro ⟨r, hr, -⟩
    exact absurd (hcut.symm.trans hr) (by simp)

/-! ## Correctness -/

/-- The first quote from `k` on is at `p`. -/
def QuoteAt (bs : List UInt8) (k p : ℕ) : Prop :=
  k ≤ p ∧ bs[p]? = some 0x22 ∧ ∀ j, k ≤ j → j < p → bs[j]? ≠ some 0x22

/-- The first `id=` is at `i`, and the first two quotes after it are at `p` and `q`. -/
structure Attribute (bs : List UInt8) (i p q : ℕ) : Prop where
  first : firstId bs = some i
  opening : QuoteAt bs (i + 3) p
  closing : QuoteAt bs (p + 1) q

/-- The text between the quotes. -/
def quoted (bs : List UInt8) (p q : ℕ) : List UInt8 := (bs.drop (p + 1)).take (q - p - 1)

/-- `Extraction` leaves the quoted text of the first `id=` in a zeroed `result` if it has at most
nine bytes, and leaves `result` alone if there is no `id=`. -/
structure ParsesId (recvbuf : List UInt8) : Prop where
  found : ∀ i p q, Attribute recvbuf i p q → q - p - 1 ≤ 9 →
    extraction recvbuf zeroed = .ok (padded (quoted recvbuf p q))
  absent : firstId recvbuf = none → extraction recvbuf zeroed = .ok zeroed

/-- What a reply has to look like for that: the quote follows the `=` at once, or there is nothing
but zeros to be copied; and without an `id=`, the array does not end in the middle of one. -/
structure Parseable (recvbuf : List UInt8) : Prop where
  found : ∀ i p q, Attribute recvbuf i p q → q - p - 1 ≤ 9 →
    p = i + 3 ∨ ∀ b ∈ quoted recvbuf p q, b = 0
  absent : firstId recvbuf = none → ¬ EndsInId recvbuf

theorem mem_drop_of_getElem? {bs : List UInt8} {b : UInt8} {k p : ℕ} (hkp : k ≤ p)
    (hget : bs[p]? = some b) : b ∈ bs.drop k := by
  rw [List.mem_iff_getElem?]
  refine ⟨p - k, ?_⟩
  rw [List.getElem?_drop, Nat.add_sub_cancel' hkp, hget]

/-- The quote that `findQuote` finds. -/
theorem QuoteAt.idxOf {bs : List UInt8} {k p : ℕ} (h : QuoteAt bs k p) :
    0x22 ∈ bs.drop k ∧ (bs.drop k).idxOf 0x22 = p - k := by
  obtain ⟨hkp, hquote, hbefore⟩ := h
  obtain ⟨hlt, hget⟩ := List.getElem?_eq_some_iff.mp hquote
  have hsplit : bs.drop k = (bs.drop k).take (p - k) ++ 0x22 :: bs.drop (p + 1) := by
    rw [← hget, ← List.drop_eq_getElem_cons hlt]
    have hdrop : bs.drop p = (bs.drop k).drop (p - k) := by
      rw [List.drop_drop, Nat.add_sub_cancel' hkp]
    rw [hdrop, List.take_append_drop]
  have hnot : 0x22 ∉ (bs.drop k).take (p - k) := by
    intro hmem
    obtain ⟨j, hj, heq⟩ := List.mem_take_iff_getElem.mp hmem
    rw [List.getElem_drop] at heq
    refine hbefore (k + j) (Nat.le_add_right k j) (by omega) ?_
    rw [List.getElem?_eq_getElem (by omega), heq]
  refine ⟨mem_drop_of_getElem? hkp hquote, ?_⟩
  rw [hsplit, List.idxOf_append_of_notMem hnot, List.idxOf_cons_self, List.length_take,
    List.length_drop, Nat.add_zero]
  omega

/-- **The branch of an attribute**: its text is copied if the quote follows the `=` at once, and
nothing otherwise. -/
theorem extraction_attribute {bs : List UInt8} {i p q : ℕ} (hlen : bs.length = 1024)
    (h : Attribute bs i p q) (hfit : q - p - 1 ≤ 9) :
    extraction bs zeroed = .ok (if p = i + 3 then padded (quoted bs p q) else zeroed) := by
  obtain ⟨hat, -⟩ := firstId_eq_some h.first
  obtain ⟨hclosing, hidx⟩ := h.closing.idxOf
  obtain ⟨hle, hopening, hbefore⟩ := h.opening
  rw [extraction_some hlen h.first]
  by_cases hp : p = i + 3
  · obtain ⟨hq, hlt⟩ : p + 1 ≤ q ∧ q < bs.length :=
      ⟨h.closing.1, (List.getElem?_eq_some_iff.mp h.closing.2.1).1⟩
    rw [hp] at hclosing hidx hopening
    rw [if_pos hp, extractAt_attached _ hat hopening hclosing, hidx, copyId_eq (by omega) (by simp),
      zeroed, if_pos (by rw [List.length_replicate]; omega), padded, quoted, hp, Nat.sub_sub,
      List.drop_replicate, List.length_take, List.length_drop, Nat.min_eq_left (by omega)]
    simp
  · have hnone : bs[i + 3]? ≠ some 0x22 := hbefore (i + 3) (le_refl _) (by omega)
    have hmem : 0x22 ∈ bs.drop (i + 4) := mem_drop_of_getElem? (by omega) hopening
    rw [if_neg hp, extractAt_detached _ hat hnone hmem]

theorem padded_eq_zeroed_iff {v : List UInt8} (hfit : v.length ≤ 10) :
    padded v = zeroed ↔ ∀ b ∈ v, b = 0 := by
  constructor
  · intro h b hb
    have hmem : b ∈ zeroed := by
      rw [← h]
      exact List.mem_append_left _ hb
    exact (List.mem_replicate.mp hmem).2
  · intro h
    rw [padded, List.eq_replicate_of_mem h, List.length_replicate, List.replicate_append_replicate,
      Nat.add_sub_cancel' hfit]
    rfl

/-- **Correctness, exactly.**  For every content of `recvbuf`, `Extraction` gives the quoted text of
the first `id=`, and leaves `result` alone without one, if and only if the first quote follows the
`=` at once (or the text is nothing but zeros), and without an `id=` the array does not end in the
middle of one. -/
theorem parsesId_iff {recvbuf : List UInt8} (hlen : recvbuf.length = recvMaxSize) :
    ParsesId recvbuf ↔ Parseable recvbuf := by
  have hfound : ∀ i p q, Attribute recvbuf i p q → q - p - 1 ≤ 9 →
      (extraction recvbuf zeroed = .ok (padded (quoted recvbuf p q)) ↔
        p = i + 3 ∨ ∀ b ∈ quoted recvbuf p q, b = 0) := by
    intro i p q h hfit
    rw [extraction_attribute hlen h hfit]
    by_cases hp : p = i + 3
    · simp [hp]
    · have hshort : (quoted recvbuf p q).length ≤ 10 :=
        (List.length_take_le _ _).trans (hfit.trans (Nat.le_succ 9))
      simp only [hp, if_false, false_or, Except.ok.injEq]
      rw [eq_comm, padded_eq_zeroed_iff hshort]
  have habsent : firstId recvbuf = none →
      (extraction recvbuf zeroed = .ok zeroed ↔ ¬ EndsInId recvbuf) := by
    intro hnone
    rw [extraction_none hlen hnone]
    by_cases hends : EndsInId recvbuf
    · simp [hends]
    · simp [hends]
  constructor
  · rintro ⟨h₁, h₂⟩
    exact ⟨fun i p q h hfit => (hfound i p q h hfit).mp (h₁ i p q h hfit),
      fun hnone => (habsent hnone).mp (h₂ hnone)⟩
  · rintro ⟨h₁, h₂⟩
    exact ⟨fun i p q h hfit => (hfound i p q h hfit).mpr (h₁ i p q h hfit),
      fun hnone => (habsent hnone).mpr (h₂ hnone)⟩

/-- `id="7"`. -/
theorem attached_quote_parsed : ParsesId (replyWith [0x37, 0x22]) := by
  refine (parsesId_iff (by decide +kernel)).mpr ⟨?_, ?_⟩
  · rintro i p q ⟨hfirst, ⟨hle, -, hbefore⟩, -⟩ -
    have hzero : firstId (replyWith [0x37, 0x22]) = some 0 := by decide +kernel
    obtain rfl : 0 = i := Option.some.inj (hzero.symm.trans hfirst)
    left
    by_contra hne
    exact hbefore 3 (le_refl 3) (by omega) (by decide +kernel)
  · intro hnone
    exact absurd hnone (by decide +kernel)

/-- `id= "7"`: with a blank between the `=` and the quote, the ID is lost. -/
theorem blank_before_quote_not_parsed :
    ¬ ParsesId (inRecvbuf [0x69, 0x64, 0x3D, 0x20, 0x22, 0x37, 0x22]) := by
  intro h
  have hattr : Attribute (inRecvbuf [0x69, 0x64, 0x3D, 0x20, 0x22, 0x37, 0x22]) 0 4 6 := by
    refine ⟨by decide +kernel, ⟨by omega, by decide +kernel, fun j hj hlt => ?_⟩,
      ⟨by omega, by decide +kernel, fun j hj hlt => ?_⟩⟩
    · obtain rfl : j = 3 := by omega
      decide +kernel
    · obtain rfl : j = 5 := by omega
      decide +kernel
  have hresult : extraction (inRecvbuf [0x69, 0x64, 0x3D, 0x20, 0x22, 0x37, 0x22]) zeroed =
      .ok zeroed := by
    decide +kernel
  have hwanted := h.found 0 4 6 hattr (by decide)
  exact absurd (hresult.symm.trans hwanted) (by decide +kernel)

end CourseDesign.Voice
