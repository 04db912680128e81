import CourseDesign.Lib.Machine
import CourseDesign.Terminal.Rc522

/-!
# The scan task of the card reader

After its first `rc522_start` `rc522_task` scans again and again, and reports a tag when the scan
before saw none.  The serial number is freed only where it is reported.

* `step_start`, `step_round` — what one call or one round does.
* `scanner_keeps_account` — in every run, with any device on the bus, the events are exactly the
  arrivals, the blocks that are never freed are exactly those of the repeated sightings, and as
  long as there is memory no scan can fault or go on forever.
-/

namespace CourseDesign.Terminal

open Procedure HeapBlocks
open Attendance (rc522SnToU64)

variable {σ : Type}

/-- A serial number in its block. -/
def serialCells (sn : Vector UInt8 5) : List (Option (BitVec 8)) :=
  sn.toList.map fun b => some b.toBitVec

/-- `rc522_sn_to_u64` of a pointer that is not null. -/
def serialNumber (sn : Option ℕ) : Driver σ ℕ := do
  let b₄ ← load sn 4
  let b₃ ← load sn 3
  let b₂ ← load sn 2
  let b₁ ← load sn 1
  let b₀ ← load sn 0
  pure (rc522SnToU64 (some #v[⟨b₀⟩, ⟨b₁⟩, ⟨b₂⟩, ⟨b₃⟩, ⟨b₄⟩]))

/-- The body of the loop of `rc522_task` after `rc522_get_tag`: the new value of
`tag_was_present_last_time`, and the tag that the handler gets.  `posted` tells whether
`esp_event_post_to` takes the event; its result is not tested. -/
def reportTag (posted tagWasPresentLastTime : Bool) :
    Option ℕ → Driver σ (Bool × Option ℕ)
  | none => pure (false, none)
  | some serialNoArray =>
      if tagWasPresentLastTime then pure (true, none)
      else do
        let serialNumber ← serialNumber (some serialNoArray)
        free (some serialNoArray)
        pure (true, if posted then some serialNumber else none)

/-- What `rc522_create` has made.  The event loop holds one event and runs right after it was
posted, so that `events` are the calls of the handler. -/
structure Scanner (σ : Type) where
  world : World (Link σ) (BitVec 8)
  initialized : Bool
  scanning : Bool
  tagWasPresentLastTime : Bool
  /-- `rc522_destroy` has freed the driver. -/
  destroyed : Bool
  events : List ℕ

inductive ScanAction where
  | start
  | pause
  /-- A round of the loop: what the uninitialized variables hold, what `rc522_get_tag` finds, and
  whether the event can be posted. -/
  | round (resDataN resN : BitVec 8) (found : Option (Vector UInt8 5)) (posted : Bool)

section Machine

variable (board : Board σ) (transport : Transport)

/-- `rc522_start`.  When the read/write test fails, `rc522_destroy` frees the driver under its task.
-/
def Scanner.start (s : Scanner σ) : Option (Scanner σ) :=
  if s.scanning then some s
  else if s.initialized then some { s with scanning := true }
  else do
    let (passed, w) ← rc522Start board transport s.world
    pure { s with world := w, initialized := passed, scanning := passed, destroyed := !passed }

/-- A round of the loop of `rc522_task`. -/
def Scanner.round (s : Scanner σ) (resDataN resN : BitVec 8) (found : Option (Vector UInt8 5))
    (posted : Bool) : Option (Scanner σ) := do
  let (serialNoArray, w) ← rc522GetTag board transport resDataN resN s.world
  if serialNoArray.bind w.heap.block = found.map serialCells then do
    let ((tagIsPresent, event), w) ← reportTag posted s.tagWasPresentLastTime serialNoArray w
    pure { s with world := w, tagWasPresentLastTime := tagIsPresent,
                  events := s.events ++ event.toList }
  else none

/-- `rc522_task` with the calls of `rc522_start` and `rc522_pause`; of a driver that was freed
nothing is said. -/
def scanner (device : σ) : Machine (Scanner σ) ScanAction where
  init := ⟨⟨⟨device, 0⟩, Heap.empty⟩, false, false, false, false, []⟩
  step s a :=
    if s.destroyed then none
    else match a with
      | .start => s.start board transport
      | .pause => some { s with scanning := false }
      | .round resDataN resN found posted =>
          if s.scanning then s.round board transport resDataN resN found posted else none

end Machine

/-! ## What a run is about -/

section Account

variable {V : Type*}

/-- What the rounds of a run found, and whether an event could be posted. -/
def sightings : List ScanAction → List (Option (Vector UInt8 5) × Bool)
  | [] => []
  | .round _ _ found posted :: as => (found, posted) :: sightings as
  | _ :: as => sightings as

/-- The sightings that follow a round without a tag, as far as their event was posted. -/
def arrivals : Bool → List (Option V × Bool) → List V
  | _, [] => []
  | _, (none, _) :: l => arrivals false l
  | false, (some v, posted) :: l => (if posted then [v] else []) ++ arrivals true l
  | true, (some _, _) :: l => arrivals true l

/-- The sightings that follow another one. -/
def repeats : Bool → List (Option V × Bool) → List V
  | _, [] => []
  | _, (none, _) :: l => repeats false l
  | false, (some _, _) :: l => repeats true l
  | true, (some v, _) :: l => v :: repeats true l

/-- Whether the last round found a tag. -/
def present : Bool → List (Option V × Bool) → Bool
  | tag, [] => tag
  | _, (found, _) :: l => present found.isSome l

/-- From `f` to `g` one block after the other is allocated for the serial numbers. -/
inductive Leaks : (ℕ → Option (List (Option (BitVec 8)))) → List (Vector UInt8 5) →
    (ℕ → Option (List (Option (BitVec 8)))) → Prop
  | nil {f} : Leaks f [] f
  | cons {f g p sn sns} (fresh : f p = none)
      (rest : Leaks (Function.update f p (some (serialCells sn))) sns g) : Leaks f (sn :: sns) g

variable {f g : ℕ → Option (List (Option (BitVec 8)))} {sns : List (Vector UInt8 5)}

/-- **The blocks that leak**, by name. -/
theorem Leaks.blocks (h : Leaks f sns g) : ∃ ps : List ℕ, ps.Nodup ∧
    List.Forall₂ (fun p sn => g p = some (serialCells sn)) ps sns ∧ (∀ p ∈ ps, f p = none) ∧
    ∀ p ∉ ps, g p = f p := by
  induction h with
  | nil => exact ⟨[], List.nodup_nil, .nil, fun _ hp => absurd hp List.not_mem_nil, fun _ _ => rfl⟩
  | @cons f g p sn sns fresh rest ih =>
      obtain ⟨ps, hnodup, hcells, hfresh, hother⟩ := ih
      have hp : p ∉ ps := by
        intro hmem
        have hnone := hfresh p hmem
        rw [Function.update_self] at hnone
        cases hnone
      refine ⟨p :: ps, List.nodup_cons.mpr ⟨hp, hnodup⟩, .cons ?_ hcells, ?_, ?_⟩
      · rw [hother p hp, Function.update_self]
      · rintro q (_ | ⟨_, hq⟩)
        · exact fresh
        · have hne : q ≠ p := fun heq => hp (heq ▸ hq)
          rw [← hfresh q hq, Function.update_of_ne hne]
      · intro q hq
        rw [List.mem_cons, not_or] at hq
        rw [hother q hq.2, Function.update_of_ne hq.1]

theorem Leaks.trans {h : ℕ → Option (List (Option (BitVec 8)))} {sns' : List (Vector UInt8 5)}
    (hf : Leaks f sns g) (hg : Leaks g sns' h) : Leaks f (sns ++ sns') h := by
  induction hf with
  | nil => exact hg
  | cons fresh rest ih => exact .cons fresh (ih hg)

theorem arrivals_append (tag : Bool) (l l' : List (Option V × Bool)) :
    arrivals tag (l ++ l') = arrivals tag l ++ arrivals (present tag l) l' := by
  induction l generalizing tag with
  | nil => rfl
  | cons sighting l ih =>
      obtain ⟨found, posted⟩ := sighting
      cases found with
      | none => cases tag <;> exact ih false
      | some v =>
          cases tag with
          | false => exact (congrArg _ (ih true)).trans (List.append_assoc _ _ _).symm
          | true => exact ih true

theorem repeats_append (tag : Bool) (l l' : List (Option V × Bool)) :
    repeats tag (l ++ l') = repeats tag l ++ repeats (present tag l) l' := by
  induction l generalizing tag with
  | nil => rfl
  | cons sighting l ih =>
      obtain ⟨found, posted⟩ := sighting
      cases found with
      | none => cases tag <;> exact ih false
      | some v =>
          cases tag with
          | false => exact ih true
          | true => exact congrArg (v :: ·) (ih true)

theorem sightings_cons (a : ScanAction) (as : List ScanAction) :
    sightings (a :: as) = sightings [a] ++ sightings as := by
  cases a with
  | round resDataN resN found posted => rfl
  | _ => rfl

theorem serialCells_injective : Function.Injective serialCells := by
  intro sn sn' h
  have hinj : Function.Injective fun b : UInt8 => some b.toBitVec := fun b b' hb =>
    UInt8.toBitVec_inj.mp (Option.some.inj hb)
  exact Vector.toList_inj.mp (hinj.list_map h)

end Account

/-! ## The steps -/

section Steps

variable {board : Board σ} {transport : Transport} {w : World (Link σ) (BitVec 8)}
  {f : ℕ → Option (List (Option (BitVec 8)))} {p : ℕ} {sn : Vector UInt8 5}
  {s t : Scanner σ} {device : σ} {as : List ScanAction}

/-- Five bytes are a serial number. -/
theorem exists_serialCells {bytes : List (BitVec 8)} (hlength : bytes.length = 5) :
    ∃ sn, bytes.map some = serialCells sn := by
  refine ⟨⟨(bytes.map UInt8.ofBitVec).toArray, by simpa using hlength⟩, ?_⟩
  rw [serialCells, Vector.toList_mk, List.map_map]
  rfl

theorem serialNumber_spec {memory : ℕ → Bool} (h : Owns f p (serialCells sn) w) :
    Ends (Short memory) (serialNumber (some p)) w fun n w' =>
      n = rc522SnToU64 (some sn) ∧ w' = w := by
  obtain ⟨⟨bytes⟩, hsize⟩ := sn
  match bytes, hsize with
  | [b₀, b₁, b₂, b₃, b₄], _ =>
      refine (ends_load h (i := 4) rfl).then ?_
      rintro _ _ ⟨rfl, rfl⟩
      refine (ends_load h (i := 3) rfl).then ?_
      rintro _ _ ⟨rfl, rfl⟩
      refine (ends_load h (i := 2) rfl).then ?_
      rintro _ _ ⟨rfl, rfl⟩
      refine (ends_load h (i := 1) rfl).then ?_
      rintro _ _ ⟨rfl, rfl⟩
      refine (ends_load h (i := 0) rfl).then ?_
      rintro _ _ ⟨rfl, rfl⟩
      exact ends_pure ⟨rfl, rfl⟩

/-- The report of an arrival frees the serial number; it needs no memory. -/
theorem reportTag_arrival (posted : Bool) (h : Owns f p (serialCells sn) w) : ∃ w',
    reportTag posted false (some p) w =
        some ((true, if posted then some (rc522SnToU64 (some sn)) else none), w') ∧
      w'.heap.block = f ∧ w'.env = w.env := by
  have hreport : Ends (Short fun _ => true) (reportTag posted false (some p)) w fun r w' =>
      r = (true, if posted then some (rc522SnToU64 (some sn)) else none) ∧
        w'.heap.block = f ∧ w'.env = w.env := by
    refine (serialNumber_spec h).then ?_
    rintro _ _ ⟨rfl, rfl⟩
    exact (ends_free h).then fun _ w₂ ⟨hblock, henv⟩ => ends_pure ⟨rfl, hblock, henv⟩
  obtain ⟨_, w', hrun, rfl, hblock, henv⟩ := hreport.exists_result (not_short fun _ _ => rfl)
  exact ⟨w', hrun, hblock, henv⟩

/-- The rest of a round after a scan: whatever the scan gives back, it does not fault. -/
theorem report_spec (tag posted : Bool) {serialNoArray : Option ℕ} {w₁ : World (Link σ) (BitVec 8)}
    (h : Gives 8123 w serialNoArray 5 w₁) : ∃ found event w₂,
    serialNoArray.bind w₁.heap.block = found.map serialCells ∧
      reportTag posted tag serialNoArray w₁ = some ((found.isSome, event), w₂) ∧
      event.toList = (arrivals tag [(found, posted)]).map (fun sn => rc522SnToU64 (some sn)) ∧
      Leaks w.heap.block (repeats tag [(found, posted)]) w₂.heap.block ∧
      w₂.env.transfers ≤ w.env.transfers + 8123 := by
  cases serialNoArray with
  | none =>
      refine ⟨none, none, w₁, rfl, rfl, ?_, ?_, h.transfers⟩
      · cases tag <;> rfl
      · rw [h.null rfl]
        cases tag <;> exact .nil
  | some p =>
      obtain ⟨bytes, hlength, howns⟩ := h.block p rfl
      obtain ⟨sn, hsn⟩ := exists_serialCells hlength
      rw [hsn] at howns
      cases tag with
      | true =>
          refine ⟨some sn, none, w₁, howns.at, rfl, rfl, ?_, h.transfers⟩
          rw [howns.block]
          exact .cons howns.fresh .nil
      | false =>
          obtain ⟨w₂, hreport, hblock, henv⟩ := reportTag_arrival posted howns
          refine ⟨some sn, _, w₂, howns.at, hreport, ?_, ?_, ?_⟩
          · cases posted <;> rfl
          · rw [hblock]
            exact .nil
          · rw [henv]
            exact h.transfers

/-- **The step of a round.** -/
theorem step_round (hreads : board.Reads) {resDataN resN : BitVec 8}
    {found : Option (Vector UInt8 5)} {posted : Bool}
    (hround : s.round board transport resDataN resN found posted = some t) :
    t.tagWasPresentLastTime = found.isSome ∧
      t.events = s.events ++ (arrivals s.tagWasPresentLastTime [(found, posted)]).map
        (fun sn => rc522SnToU64 (some sn)) ∧
      Leaks s.world.heap.block (repeats s.tagWasPresentLastTime [(found, posted)])
        t.world.heap.block ∧
      t.world.env.transfers ≤ s.world.env.transfers + 8123 := by
  obtain ⟨⟨serialNoArray, w₁⟩, hget, hrest⟩ := Option.bind_eq_some_iff.mp hround
  have hgives := (getTag_spec hreads transport resDataN resN s.world).result hget
  obtain ⟨found', event, w₂, hcells, hreport, hevents, hleaks, htransfers⟩ :=
    report_spec s.tagWasPresentLastTime posted hgives
  dsimp only at hrest
  rw [hcells] at hrest
  split at hrest
  next hfound =>
      obtain rfl := Option.map_injective serialCells_injective hfound
      rw [hreport] at hrest
      obtain rfl := Option.some.inj hrest
      exact ⟨rfl, by rw [hevents], hleaks, htransfers⟩
  next hfound => cases hrest

/-- **The step of `rc522_start`**, also when the driver is destroyed. -/
theorem step_start (hreads : board.Reads) (hstart : s.start board transport = some t) :
    t.tagWasPresentLastTime = s.tagWasPresentLastTime ∧ t.events = s.events ∧
      t.world.heap.block = s.world.heap.block ∧
      t.world.env.transfers ≤ s.world.env.transfers + 21 := by
  rw [Scanner.start] at hstart
  split at hstart
  next =>
      obtain rfl := Option.some.inj hstart
      exact ⟨rfl, rfl, rfl, Nat.le_add_right _ _⟩
  next =>
      split at hstart
      next =>
          obtain rfl := Option.some.inj hstart
          exact ⟨rfl, rfl, rfl, Nat.le_add_right _ _⟩
      next =>
          obtain ⟨⟨passed, w₁⟩, hrun, hrest⟩ := Option.bind_eq_some_iff.mp hstart
          obtain ⟨hblock, htransfers⟩ := (start_quiet hreads transport s.world).result hrun
          obtain rfl := Option.some.inj hrest
          exact ⟨rfl, rfl, hblock, htransfers⟩

/-- With memory a round is never stuck. -/
theorem exists_step_round (hreads : board.Reads) (hmemory : ¬ board.Short s.world)
    (transport : Transport) (device : σ) (hscanning : s.scanning = true)
    (hdestroyed : s.destroyed = false) (resDataN resN : BitVec 8) (posted : Bool) : ∃ found t,
    (scanner board transport device).step s (.round resDataN resN found posted) = some t := by
  obtain ⟨serialNoArray, w₁, hget, hgives⟩ :=
    (getTag_spec hreads transport resDataN resN s.world).exists_result hmemory
  obtain ⟨found, event, w₂, hcells, hreport, -⟩ :=
    report_spec s.tagWasPresentLastTime posted hgives
  refine ⟨found, { s with
    world := w₂, tagWasPresentLastTime := found.isSome, events := s.events ++ event.toList }, ?_⟩
  simp only [scanner]
  rw [if_neg (by rw [hdestroyed]; decide), if_pos hscanning, Scanner.round, hget,
    Option.bind_eq_bind, Option.bind_some]
  dsimp only
  rw [hcells, if_pos rfl, hreport]
  rfl

/-- With memory `rc522_start` returns. -/
theorem exists_start (hreads : board.Reads) (hmemory : ¬ board.Short s.world)
    (transport : Transport) : ∃ t, s.start board transport = some t := by
  rw [Scanner.start]
  split
  · exact ⟨_, rfl⟩
  · split
    · exact ⟨_, rfl⟩
    · obtain ⟨passed, w₁, hrun, -⟩ := (start_quiet hreads transport s.world).exists_result hmemory
      rw [hrun]
      exact ⟨_, rfl⟩

/-- **The account of a step.** -/
theorem step_account (hreads : board.Reads) {a : ScanAction}
    (hstep : (scanner board transport device).step s a = some t) :
    t.tagWasPresentLastTime = present s.tagWasPresentLastTime (sightings [a]) ∧
      t.events = s.events ++ (arrivals s.tagWasPresentLastTime (sightings [a])).map
        (fun sn => rc522SnToU64 (some sn)) ∧
      Leaks s.world.heap.block (repeats s.tagWasPresentLastTime (sightings [a]))
        t.world.heap.block ∧
      t.world.env.transfers ≤ s.world.env.transfers + 8123 := by
  simp only [scanner] at hstep
  split at hstep
  next => cases hstep
  next =>
      cases a with
      | start =>
          obtain ⟨htag, hevents, hblock, htransfers⟩ := step_start hreads hstep
          rw [hevents, hblock]
          exact ⟨htag, (List.append_nil _).symm, .nil, by omega⟩
      | pause =>
          obtain rfl := Option.some.inj hstep
          exact ⟨rfl, (List.append_nil _).symm, .nil, Nat.le_add_right _ _⟩
      | round resDataN resN found posted =>
          dsimp only at hstep
          split at hstep
          next => exact step_round hreads hstep
          next => cases hstep

/-- **The account of a run.** -/
theorem exec_account (hreads : board.Reads)
    (hexec : (scanner board transport device).exec s as = some t) :
    t.events = s.events ++ (arrivals s.tagWasPresentLastTime (sightings as)).map
        (fun sn => rc522SnToU64 (some sn)) ∧
      Leaks s.world.heap.block (repeats s.tagWasPresentLastTime (sightings as))
        t.world.heap.block := by
  induction as generalizing s with
  | nil =>
      obtain rfl := Option.some.inj hexec
      exact ⟨by simp [sightings, arrivals], .nil⟩
  | cons a as ih =>
      obtain ⟨u, hstep, hrest⟩ := ((scanner board transport device).exec_cons_eq_some).mp hexec
      obtain ⟨hevents, hleaks⟩ := ih hrest
      obtain ⟨htag, hevents₁, hleaks₁, -⟩ := step_account hreads hstep
      rw [htag] at hevents hleaks
      rw [sightings_cons, arrivals_append, repeats_append]
      refine ⟨?_, hleaks₁.trans hleaks⟩
      rw [List.map_append, ← List.append_assoc, ← hevents₁]
      exact hevents

/-- **The account of the scanner.**  With any device on the bus whose reads do not fail, in every
run each arrival of a tag whose event is posted is one event with its number and nothing else is an
event; the blocks that are still allocated between two rounds are exactly one for each repeated
sighting, which nobody frees; a round, or the first start, makes at most 8123 transfers; and as long
as `malloc` finds memory from now on, the next round and the next start do not fault. -/
theorem scanner_keeps_account (board : Board σ) (hreads : board.Reads) (transport : Transport)
    (device : σ) (as : List ScanAction) (s : Scanner σ)
    (hexec : (scanner board transport device).exec (scanner board transport device).init as =
      some s) :
    s.events = (arrivals false (sightings as)).map (fun sn => rc522SnToU64 (some sn)) ∧
      (∃ ps : List ℕ, ps.Nodup ∧ (∀ p, p ∉ ps → s.world.heap.block p = none) ∧
        List.Forall₂ (fun p sn => s.world.heap.block p = some (serialCells sn)) ps
          (repeats false (sightings as))) ∧
      (∀ a t, (scanner board transport device).step s a = some t →
        t.world.env.transfers ≤ s.world.env.transfers + 8123) ∧
      ((∀ k, s.world.heap.calls ≤ k → board.memory k = true) → s.destroyed = false →
        (∃ t, (scanner board transport device).step s .start = some t) ∧
        (s.scanning = true → ∀ resDataN resN posted, ∃ found t,
          (scanner board transport device).step s (.round resDataN resN found posted) =
            some t)) := by
  obtain ⟨hevents, hleaks⟩ := exec_account hreads hexec
  obtain ⟨ps, hnodup, hcells, -, hother⟩ := hleaks.blocks
  refine ⟨hevents, ⟨ps, hnodup, fun p hp => hother p hp, hcells⟩, ?_, ?_⟩
  · intro a t hstep
    obtain ⟨-, -, -, htransfers⟩ := step_account hreads hstep
    exact htransfers
  · intro hmemory hdestroyed
    have hshort : ¬ board.Short s.world := not_short hmemory
    refine ⟨?_, fun hscanning => exists_step_round hreads hshort _ _ hscanning hdestroyed⟩
    simp only [scanner, hdestroyed]
    exact exists_start hreads hshort transport

end Steps

/-- A reader with a tag that never leaves: the address that was sent last, the register of the
read/write test, and what is left of the answer to the command that the register `0x0D` prepares. -/
structure HeldTag where
  addr : BitVec 8
  test : BitVec 8
  fifo : List (BitVec 8)

/-- The tag of the first number in `card_correct_id`. -/
def memberOnReader : Board HeldTag where
  transfer t s := (some (List.replicate t.size (match s.addr with
      | 0x88 => 0x30 | 0x8A => 0x04 | 0x92 => s.fifo.headD 0 | 0x94 => s.fifo.length
      | 0xC8 => s.test | _ => 0x60)), match t with
    | .spiTransmit [addr] 0 => { s with addr := addr }
    | .spiTransmit [0x48, val] 0 => { s with test := val }
    | .spiTransmit [0x1A, 0x07] 0 => { s with fifo := [0x04, 0x00] }
    | .spiTransmit [0x1A, 0x00] 0 => { s with fifo := [0xA1, 0xEF, 0xF2, 0x3B, 0x87] }
    | .spiTransmit [] 1 => if s.addr = 0x92 then { s with fifo := s.fifo.tail } else s
    | _ => s)
  size_eq t s bytes h := by
    obtain rfl := Option.some.inj h
    exact List.length_replicate
  memory _ := true

def memberSerial : Vector UInt8 5 := #v[0xA1, 0xEF, 0xF2, 0x3B, 0x87]

def memberRounds : List ScanAction :=
  [.start, .round 7 9 (some memberSerial) true, .round 2 0 (some memberSerial) true]

theorem scanner_keeps_account_held : ∃ s : Scanner HeldTag,
    (scanner memberOnReader (.spi false) ⟨0, 0, []⟩).exec
        (scanner memberOnReader (.spi false) ⟨0, 0, []⟩).init memberRounds = some s ∧
      s.events = [580826361761] ∧
      (∃ ps : List ℕ, ps.Nodup ∧ (∀ p, p ∉ ps → s.world.heap.block p = none) ∧
        List.Forall₂ (fun p sn => s.world.heap.block p = some (serialCells sn)) ps
          [memberSerial]) ∧
      ∃ found t, (scanner memberOnReader (.spi false) ⟨0, 0, []⟩).step s (.round 0 0 found true) =
        some t := by
  have hreads : memberOnReader.Reads := fun _ _ _ => rfl
  obtain ⟨s, hexec, hevents, hscanning, hdestroyed⟩ :=
    (scanner memberOnReader (.spi false) ⟨0, 0, []⟩).exists_exec
      (scanner memberOnReader (.spi false) ⟨0, 0, []⟩).init memberRounds
      (fun s => s.events = [580826361761] ∧ s.scanning = true ∧ s.destroyed = false)
      (by decide +kernel)
  obtain ⟨-, hblocks, -, hnext⟩ :=
    scanner_keeps_account memberOnReader hreads (.spi false) ⟨0, 0, []⟩ memberRounds s hexec
  exact ⟨s, hexec, hevents, hblocks, (hnext (fun _ _ => rfl) hdestroyed).2 hscanning 0 0 true⟩

end CourseDesign.Terminal
