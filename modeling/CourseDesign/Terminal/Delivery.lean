import CourseDesign.Terminal.MutexDiscipline
import Mathlib.Tactic.Common

/-!
# What becomes of a scan

`rc522_handler` hands a card to `tcp_client_task` through one global, `card_id`, and a notification
that carries no value and does not stay pending.  This file says exactly when that channel is
faithful, for the two of them interleaved in any way, with no failing `send` and every
`xSemaphoreTake` succeeding (`Action.Untroubled`).

* `Undisturbed` — the condition on a step: the notification of a scan finds the task blocked in
  `ulTaskNotifyTake`, and `card_id` is not replaced by a different number between a wake-up and the
  `sprintf` that formats it.
* `inStep_preserved` — under it, the scans are those sent, then the one owed, then the one the
  handler still has in hand.
* `astray_of_disturbed`, `astray_preserved` — a step against it loses or replaces a card, and no
  later step makes up for it.
* `sent_eq_scanned_iff` — hence the IDs sent are the IDs scanned if and only if the whole run was
  undisturbed.
-/

namespace CourseDesign.Terminal

/-- Steps of the handler and of `tcp_client_task`, no call of the latter failing. -/
def Action.Untroubled (a : Action) : Prop :=
  a.actor ≠ .display ∧ a ≠ .tcpSemTake false ∧ ¬ a.sendFails

/-- Woken by a scan, and `sprintf` has not read `card_id` yet. -/
def TcpPc.unformatted : TcpPc → Bool
  | .semTake | .memset | .format => true
  | _ => false

/-- The number of cards `tcp_client_task` was woken for and has not sent. -/
def TcpPc.owing : TcpPc → ℕ
  | .semTake | .memset | .format | .send _ => 1
  | _ => 0

/-- The number of cards the handler has stored and not announced to `tcp_client_task`. -/
def HandlerPc.busy : HandlerPc → ℕ
  | .idle => 0
  | _ => 1

/-- The condition on a step under which no card goes astray. -/
def Undisturbed (s : State) : Action → Prop
  | .scan sn => s.tcp.unformatted = true → sn = s.cardId
  | .notifyTcp => s.tcp = .blocked
  | _ => True

/-! ## What an untroubled step can do -/

/-- The untroubled steps, as far as cards are concerned. -/
inductive UntroubledStep (s : State) : Action → State → Prop where
  | scan (sn : ℕ) (hh : s.handler = .idle) :
      UntroubledStep s (.scan sn)
        { s with cardId := sn, handler := .notifyDisplay, scanned := s.scanned ++ [sn] }
  | notifyDisplay (pc : DisplayPc) (hh : s.handler = .notifyDisplay) :
      UntroubledStep s .notifyDisplay { s with handler := .notifyTcp, display := pc }
  | notifyTcp (hh : s.handler = .notifyTcp) :
      UntroubledStep s .notifyTcp { s with handler := .idle, tcp := s.tcp.notified }
  /-- `tcp_client_task` moves on without a card. -/
  | clear {a : Action} (pc : TcpPc) (m : Option Task) (ha : a.actor = .tcpClient)
      (hs : s.tcp.owing = 0) (hpc : pc.owing = 0) :
      UntroubledStep s a { s with tcp := pc, mutex := m }
  /-- It moves towards the `sprintf`. -/
  | approach {a : Action} (pc : TcpPc) (m : Option Task) (str : List UInt8)
      (ha : a.actor = .tcpClient) (hs : s.tcp.unformatted = true) (hpc : pc.unformatted = true) :
      UntroubledStep s a { s with tcp := pc, mutex := m, cardIdStr := str }
  | format (hs : s.tcp = .format) :
      UntroubledStep s .tcpFormat
        { s with tcp := .send s.cardId, cardIdStr := sprintfLlu s.cardId }
  | send (err : ℤ) (v : ℕ) (hs : s.tcp = .send v) :
      UntroubledStep s (.tcpSend err)
        { s with tcp := .semGive, sent := s.sent ++ [⟨v, s.cardIdStr⟩] }

/-- **Inversion.**  With the notification value at zero (nothing ever raises it), an untroubled
step is one of the above. -/
theorem untroubledStep_of_step {s t : State} {a : Action} (hv : s.tcpValue = 0)
    (ha : a.Untroubled) (h : terminal.step s a = some t) : UntroubledStep s a t := by
  obtain ⟨hdisplay, htake, hsend⟩ := ha
  cases a with
  | scan sn =>
      obtain ⟨hh, rfl⟩ := Machine.when_eq_some.mp h
      exact .scan sn hh
  | notifyDisplay =>
      obtain ⟨hh, rfl⟩ := Machine.when_eq_some.mp h
      exact .notifyDisplay _ hh
  | notifyTcp =>
      obtain ⟨hh, rfl⟩ := Machine.when_eq_some.mp h
      exact .notifyTcp hh
  | tcpConnect ok =>
      obtain ⟨hpc, rfl⟩ := Machine.when_eq_some.mp h
      exact .clear _ s.mutex rfl (by simp [TcpPc.owing, hpc]) (by cases ok <;> rfl)
  | tcpNotifyTake =>
      obtain ⟨hpc, rfl⟩ := Machine.when_eq_some.mp h
      rw [if_pos hv]
      exact .clear _ s.mutex rfl (by simp [TcpPc.owing, hpc]) rfl
  | tcpSemTake pass =>
      cases pass with
      | true =>
          obtain ⟨⟨hpc, -⟩, rfl⟩ := Machine.when_eq_some.mp h
          exact .approach _ _ s.cardIdStr rfl (by simp [TcpPc.unformatted, hpc]) rfl
      | false => exact absurd rfl htake
  | tcpMemset =>
      obtain ⟨hpc, rfl⟩ := Machine.when_eq_some.mp h
      exact .approach _ s.mutex _ rfl (by simp [TcpPc.unformatted, hpc]) rfl
  | tcpFormat =>
      obtain ⟨hpc, rfl⟩ := Machine.when_eq_some.mp h
      exact .format hpc
  | tcpSend err =>
      obtain ⟨v, hpc, rfl⟩ := stepTcp_send h
      have herr : ¬ err < 0 := hsend
      rw [if_neg herr]
      exact .send err v hpc
  | tcpSemGive =>
      obtain ⟨hpc, rfl⟩ := Machine.when_eq_some.mp h
      exact .clear _ _ rfl (by simp [TcpPc.owing, hpc]) rfl
  | tcpDelay =>
      obtain ⟨hpc, rfl⟩ := Machine.when_eq_some.mp h
      exact .clear _ s.mutex rfl (by simp [TcpPc.owing, hpc]) rfl
  | _ => exact absurd rfl hdisplay

theorem UntroubledStep.tcpValue {s t : State} {a : Action} (h : UntroubledStep s a t) :
    t.tcpValue = s.tcpValue := by
  cases h <;> rfl

/-! ## Every card in its place -/

/-- `owed` is what `tcp_client_task` will format next or has formatted and not sent yet. -/
def State.Owed (s : State) (owed : List ℕ) : Prop :=
  match s.tcp with
  | .semTake | .memset | .format => owed = [s.cardId]
  | .send v => owed = [v] ∧ s.cardIdStr = sprintfLlu v
  | _ => owed = []

/-- The card the handler has stored and not announced yet. -/
def State.inHand (s : State) : List ℕ := if s.handler = .idle then [] else [s.cardId]

/-- The scans are the cards sent, then the one owed, then the one in hand. -/
def State.InStep (s : State) : Prop :=
  s.tcpValue = 0 ∧ ∃ done owed, s.sent.map Sent.text = done.map sprintfLlu ∧ s.Owed owed ∧
    s.scanned = done ++ owed ++ s.inHand

theorem owed_of_unformatted {s : State} {owed : List ℕ} (hs : s.tcp.unformatted = true) :
    s.Owed owed ↔ owed = [s.cardId] := by
  cases hpc : s.tcp <;> simp [TcpPc.unformatted, hpc] at hs <;> simp [State.Owed, hpc]

theorem owed_of_clear {s : State} {owed : List ℕ} (hs : s.tcp.owing = 0) :
    s.Owed owed ↔ owed = [] := by
  cases hpc : s.tcp <;> simp [TcpPc.owing, hpc] at hs <;> simp [State.Owed, hpc]

theorem State.Owed.length {s : State} {owed : List ℕ} (h : s.Owed owed) :
    owed.length = s.tcp.owing := by
  cases hpc : s.tcp <;> simp only [State.Owed, hpc] at h
  case send v => simp [h.1, TcpPc.owing]
  all_goals simp [h, TcpPc.owing]

theorem State.inHand_length (s : State) : s.inHand.length = s.handler.busy := by
  cases hh : s.handler <;> simp [State.inHand, HandlerPc.busy, hh]

theorem owing_of_unformatted {pc : TcpPc} (h : pc.unformatted = true) : pc.owing = 1 := by
  cases pc <;> simp [TcpPc.unformatted] at h <;> rfl

/-- The scan of a new card moves the old one, if it is still wanted, to nobody's hands; an
undisturbed scan only happens when the two are the same number. -/
theorem owed_scan {s : State} {owed : List ℕ} {sn : ℕ} {t : State} (ho : s.Owed owed)
    (hsn : s.tcp.unformatted = true → sn = s.cardId) (htcp : t.tcp = s.tcp)
    (hcard : t.cardId = sn) (hstr : t.cardIdStr = s.cardIdStr) : t.Owed owed := by
  cases hu : s.tcp.unformatted with
  | true =>
      rw [owed_of_unformatted (by rw [htcp]; exact hu), hcard, hsn hu]
      exact (owed_of_unformatted hu).mp ho
  | false =>
      cases hpc : s.tcp <;> simp only [TcpPc.unformatted, hpc, Bool.true_eq_false] at hu <;>
        simpa [State.Owed, hpc, htcp, hstr] using ho

/-- **Step lemma.**  An undisturbed step keeps every card in its place. -/
theorem inStep_preserved :
    terminal.Preserves (fun s a => a.Untroubled ∧ Undisturbed s a) State.InStep := by
  rintro s a t ⟨hv, done, owed, hsent, ho, hscan⟩ ⟨ha, hg⟩ h
  have hstep := untroubledStep_of_step hv ha h
  refine ⟨hstep.tcpValue.trans hv, ?_⟩
  cases hstep with
  | scan sn hh =>
      refine ⟨done, owed, hsent, owed_scan ho hg rfl rfl rfl, ?_⟩
      simp [hscan, State.inHand, hh]
  | notifyDisplay pc hh =>
      refine ⟨done, owed, hsent, ho, ?_⟩
      simp [hscan, State.inHand, hh]
  | notifyTcp hh =>
      have hpc : s.tcp = .blocked := hg
      have hnone : owed = [] := (owed_of_clear (by simp [TcpPc.owing, hpc])).mp ho
      refine ⟨done, [s.cardId], hsent, ?_, ?_⟩
      · simp [State.Owed, TcpPc.notified, hpc]
      · simp [hscan, hnone, State.inHand, hh]
  | clear pc m ha' hs hpc =>
      have hnone : owed = [] := (owed_of_clear hs).mp ho
      refine ⟨done, [], hsent, (owed_of_clear hpc).mpr rfl, ?_⟩
      simp [hscan, hnone, State.inHand]
  | approach pc m str ha' hs hpc =>
      have hone : owed = [s.cardId] := (owed_of_unformatted hs).mp ho
      refine ⟨done, owed, hsent, (owed_of_unformatted hpc).mpr hone, ?_⟩
      simp [hscan, State.inHand]
  | format hs =>
      have hone : owed = [s.cardId] := by simpa [State.Owed, hs] using ho
      refine ⟨done, owed, hsent, ?_, ?_⟩
      · simp [State.Owed, hone]
      · simp [hscan, State.inHand]
  | send err v hs =>
      obtain ⟨hone, hstr⟩ : owed = [v] ∧ s.cardIdStr = sprintfLlu v := by
        simpa [State.Owed, hs] using ho
      refine ⟨done ++ [v], [], ?_, by simp [State.Owed], ?_⟩
      · simp [hsent, hstr]
      · simp [hscan, hone, State.inHand]

theorem inStep_init : terminal.init.InStep :=
  ⟨rfl, [], [], rfl, rfl, rfl⟩

/-! ## A card gone astray -/

def State.accounted (s : State) : ℕ := s.sent.length + s.tcp.owing + s.handler.busy

inductive State.Wrong (s : State) : Prop where
  /-- A scan is accounted for nowhere. -/
  | lost (hlt : s.accounted < s.scanned.length)
  /-- A text already sent is not that of the scan in its position. -/
  | sent (k : ℕ) (x : Sent) (n : ℕ) (hx : s.sent[k]? = some x) (hn : s.scanned[k]? = some n)
      (hne : x.text ≠ sprintfLlu n)
  /-- The next scan in line was replaced in `card_id`. -/
  | stored (n : ℕ) (hn : s.scanned[s.sent.length]? = some n) (hu : s.tcp.unformatted = true)
      (hbusy : s.handler ≠ .idle) (hne : n ≠ s.cardId)
  /-- The replacement has been formatted. -/
  | formatted (n v : ℕ) (hn : s.scanned[s.sent.length]? = some n) (hv : s.tcp = .send v)
      (hstr : s.cardIdStr = sprintfLlu v) (hne : n ≠ v)

/-- A card has gone astray.  There are never more cards accounted for than scanned. -/
def State.Astray (s : State) : Prop :=
  s.tcpValue = 0 ∧ s.accounted ≤ s.scanned.length ∧ s.Wrong

theorem State.InStep.accounted {s : State} (h : s.InStep) : s.accounted = s.scanned.length := by
  obtain ⟨-, done, owed, hsent, ho, hscan⟩ := h
  have hlen : s.sent.length = done.length := by
    simpa using congrArg List.length hsent
  rw [State.accounted, hscan, hlen]
  simp [ho.length, s.inHand_length, Nat.add_assoc]

/-- A disturbed step loses the card or replaces it. -/
theorem astray_of_disturbed {s t : State} {a : Action} (hs : s.InStep) (ha : a.Untroubled)
    (hg : ¬ Undisturbed s a) (h : terminal.step s a = some t) : t.Astray := by
  have hacc := hs.accounted
  obtain ⟨hv, done, owed, hsent, ho, hscan⟩ := hs
  have hlen : s.sent.length = done.length := by
    simpa using congrArg List.length hsent
  have hstep := untroubledStep_of_step hv ha h
  refine ⟨hstep.tcpValue.trans hv, ?_⟩
  cases hstep with
  | scan sn hh =>
      obtain ⟨hu, hne⟩ : s.tcp.unformatted = true ∧ sn ≠ s.cardId := by
        simpa [Undisturbed] using hg
      have hone : owed = [s.cardId] := (owed_of_unformatted hu).mp ho
      simp only [State.accounted, hh, HandlerPc.busy] at hacc ⊢
      refine ⟨by simp; omega, .stored s.cardId ?_ hu (by simp) hne.symm⟩
      simp [hscan, hone, hlen]
  | notifyTcp hh =>
      have hsame : s.tcp.notified = s.tcp := by
        cases hpc : s.tcp with
        | blocked => exact absurd hpc hg
        | _ => rfl
      simp only [State.accounted, hh, hsame, HandlerPc.busy] at hacc ⊢
      exact ⟨by omega, .lost (by simp only [State.accounted, HandlerPc.busy]; omega)⟩
  | notifyDisplay pc hh => exact absurd trivial hg
  | clear pc m ha' hs hpc => cases a <;> simp [Action.actor, Undisturbed] at ha' hg
  | approach pc m str ha' hs hpc => cases a <;> simp [Action.actor, Undisturbed] at ha' hg
  | format hs => exact absurd trivial hg
  | send err v hs => exact absurd trivial hg

/-- A step accounts for no more cards than it scans. -/
theorem UntroubledStep.accounted_le {s t : State} {a : Action} (h : UntroubledStep s a t) :
    t.accounted + s.scanned.length ≤ s.accounted + t.scanned.length := by
  cases h with
  | scan sn hh =>
      simp only [State.accounted, hh, HandlerPc.busy, List.length_append, List.length_singleton]
      omega
  | notifyDisplay pc hh => simp only [State.accounted, hh, HandlerPc.busy, le_refl]
  | notifyTcp hh =>
      have howing : s.tcp.notified.owing ≤ s.tcp.owing + 1 := by
        cases s.tcp <;> simp [TcpPc.notified, TcpPc.owing]
      simp only [State.accounted, hh, HandlerPc.busy]
      omega
  | clear pc m ha hs hpc => simp only [State.accounted, hs, hpc, le_refl]
  | approach pc m str ha hs hpc =>
      simp only [State.accounted, owing_of_unformatted hs, owing_of_unformatted hpc, le_refl]
  | format hs => simp only [State.accounted, hs, TcpPc.owing, le_refl]
  | send err v hs =>
      simp only [State.accounted, hs, TcpPc.owing, List.length_append, List.length_singleton,
        le_refl]

/-- What was scanned and sent stays in its position. -/
theorem UntroubledStep.grows {s t : State} {a : Action} (h : UntroubledStep s a t) :
    (∀ (k n : ℕ), s.scanned[k]? = some n → t.scanned[k]? = some n) ∧
      ∀ (k : ℕ) (x : Sent), s.sent[k]? = some x → t.sent[k]? = some x := by
  have happ : ∀ {α : Type} (l : List α) (y : α) {k : ℕ} {x : α}, l[k]? = some x →
      (l ++ [y])[k]? = some x := by
    intro α l y k x hx
    rw [List.getElem?_append_left (List.getElem?_eq_some_iff.mp hx).1, hx]
  cases h with
  | scan sn hh => exact ⟨fun k n hn => happ s.scanned sn hn, fun k x hx => hx⟩
  | send err v hs => exact ⟨fun k n hn => hn, fun k x hx => happ s.sent _ hx⟩
  | _ => exact ⟨fun k n hn => hn, fun k x hx => hx⟩

/-- A replaced number is formatted, or the notification of the card that replaced it is lost. -/
theorem wrong_of_stored {s t : State} {a : Action} (hstep : UntroubledStep s a t) {n : ℕ}
    (hle : s.accounted ≤ s.scanned.length) (hn : s.scanned[s.sent.length]? = some n)
    (hu : s.tcp.unformatted = true) (hbusy : s.handler ≠ .idle) (hne : n ≠ s.cardId) :
    t.Wrong := by
  cases hstep with
  | scan sn hh => exact absurd hh hbusy
  | notifyDisplay pc hh => exact .stored n hn hu (by simp) hne
  | notifyTcp hh =>
      -- the notification of the second card finds the task awake and is lost
      have hsame : s.tcp.notified = s.tcp := by
        cases hpc : s.tcp with
        | blocked => simp [hpc, TcpPc.unformatted] at hu
        | _ => rfl
      simp only [State.accounted, hh, HandlerPc.busy] at hle
      exact .lost (by simp only [State.accounted, hsame, HandlerPc.busy]; omega)
  | clear pc m ha hs hpc => simp [owing_of_unformatted hu] at hs
  | approach pc m str ha hs hpc => exact .stored n hn hpc hbusy hne
  | format hs => exact .formatted n s.cardId hn rfl rfl hne
  | send err v hs => simp [hs, TcpPc.unformatted] at hu

/-- The replacement is sent in the place of the card it replaced. -/
theorem wrong_of_formatted {s t : State} {a : Action} (hstep : UntroubledStep s a t) {n v : ℕ}
    (hn : s.scanned[s.sent.length]? = some n) (hv : s.tcp = .send v)
    (hstr : s.cardIdStr = sprintfLlu v) (hne : n ≠ v) : t.Wrong := by
  have hn' := hstep.grows.1 _ _ hn
  cases hstep with
  | scan sn hh => exact .formatted n v hn' hv hstr hne
  | notifyDisplay pc hh => exact .formatted n v hn hv hstr hne
  | notifyTcp hh => exact .formatted n v hn (by simp [TcpPc.notified, hv]) hstr hne
  | clear pc m ha hs hpc => simp [hv, TcpPc.owing] at hs
  | approach pc m str ha hs hpc => simp [hv, TcpPc.unformatted] at hs
  | format hs => simp [hs] at hv
  | send err w hs =>
      obtain rfl : w = v := by simpa [hs] using hv
      have htext : s.cardIdStr ≠ sprintfLlu n := by
        rw [hstr]
        exact fun he => hne (Decimal.text_injective he).symm
      exact .sent s.sent.length ⟨w, s.cardIdStr⟩ n (by simp) hn htext

/-- **A card gone astray stays astray.**  A lost one leaves the accounts short for ever; a replaced
one is formatted, sent, and then stands in the wrong place. -/
theorem astray_preserved : terminal.Preserves (fun _ a => a.Untroubled) State.Astray := by
  rintro s a t ⟨hv, hle, hbad⟩ ha h
  have hstep := untroubledStep_of_step hv ha h
  have hacc := hstep.accounted_le
  refine ⟨hstep.tcpValue.trans hv, by omega, ?_⟩
  cases hbad with
  | lost hlt => exact .lost (by omega)
  | sent k x n hx hn hne =>
      obtain ⟨hscanned, hsent⟩ := hstep.grows
      exact .sent k x n (hsent k x hx) (hscanned k n hn) hne
  | stored n hn hu hbusy hne => exact wrong_of_stored hstep hle hn hu hbusy hne
  | formatted n v hn hv' hstr hne => exact wrong_of_formatted hstep hn hv' hstr hne

/-! ## The exact condition -/

/-- **No lost or replaced scan, exactly.**  Take any interleaving of `rc522_handler` with
`tcp_client_task` without a failing call, ended with the handler between events and the task
blocked in `ulTaskNotifyTake`.  What was passed to `send` is the decimal text of what was scanned,
in the same order and number, if and only if every step was undisturbed. -/
theorem sent_eq_scanned_iff {as : List Action} {s : State}
    (h : terminal.exec terminal.init as = some s) (htwo : ∀ a ∈ as, a.Untroubled)
    (hhandler : s.handler = .idle) (htcp : s.tcp = .blocked) :
    s.sent.map Sent.text = s.scanned.map sprintfLlu ↔
      terminal.Along Undisturbed terminal.init as := by
  have hrun := Machine.exec_dichotomy inStep_preserved
    (fun s a t hs ha hg h => astray_of_disturbed hs ha hg h) astray_preserved inStep_init
    (Machine.along_of_forall htwo _) h
  rcases hrun with ⟨hal, -, done, owed, hsent, ho, hscan⟩ | ⟨hal, -, hle, hbad⟩
  · refine ⟨fun _ => hal, fun _ => ?_⟩
    have hnone : owed = [] := by simpa [State.Owed, htcp] using ho
    simp [hsent, hscan, hnone, State.inHand, hhandler]
  · refine ⟨fun heq => ?_, fun hal' => absurd hal' hal⟩
    have hlen : s.sent.length = s.scanned.length := by simpa using congrArg List.length heq
    cases hbad with
    | lost hlt =>
        simp only [State.accounted, hhandler, htcp, HandlerPc.busy, TcpPc.owing] at hlt
        omega
    | sent k x n hx hn hne =>
        have hk := congrArg (fun l => l[k]?) heq
        simp only [List.getElem?_map, hx, hn, Option.map_some, Option.some.injEq] at hk
        exact absurd hk hne
    | stored n hn hu hbusy hne => simp [htcp, TcpPc.unformatted] at hu
    | formatted n v hn hv hstr hne => simp [htcp] at hv

/-- `tcp_client_task` connects and blocks, and the handler is done with the scan of `sn`. -/
def connectAndScan (sn : ℕ) : List Action :=
  [.tcpConnect true, .tcpNotifyTake, .scan sn, .notifyDisplay, .notifyTcp]

/-- The critical section after a wake-up, and the way back into `ulTaskNotifyTake`. -/
def sendAndBlock : List Action :=
  [.tcpSemTake true, .tcpMemset, .tcpFormat, .tcpSend 2, .tcpSemGive, .tcpDelay, .tcpNotifyTake]

/-- Two cards, the second handled before the first one is formatted. -/
def overtaken : List Action :=
  connectAndScan 11 ++ [.scan 12, .notifyDisplay, .notifyTcp] ++ sendAndBlock

/-- The second card is sent, the first never is, and the two of them were one wake-up. -/
theorem overtaken_scan_is_lost :
    (∀ a ∈ overtaken, a.Untroubled) ∧
      ∃ s, terminal.exec terminal.init overtaken = some s ∧
        (s.handler = .idle ∧ s.tcp = .blocked) ∧ s.scanned = [11, 12] ∧
        s.sent.map Sent.text = [sprintfLlu 12] ∧
        s.sent.map Sent.text ≠ s.scanned.map sprintfLlu := by
  refine ⟨by simp [overtaken, connectAndScan, sendAndBlock, Action.Untroubled, Action.actor,
    Action.sendFails], ?_⟩
  exact terminal.exists_exec terminal.init overtaken
    (fun s => (s.handler = .idle ∧ s.tcp = .blocked) ∧ s.scanned = [11, 12] ∧
      s.sent.map Sent.text = [sprintfLlu 12] ∧
      s.sent.map Sent.text ≠ s.scanned.map sprintfLlu) (by decide +kernel)

/-- One card, read at leisure, is sent as it was scanned. -/
theorem leisurely_scan_is_sent :
    ∃ s, terminal.exec terminal.init (connectAndScan 11 ++ sendAndBlock) = some s ∧
      terminal.Along Undisturbed terminal.init (connectAndScan 11 ++ sendAndBlock) := by
  obtain ⟨s, hs, ⟨hh, ht⟩, hsent⟩ := terminal.exists_exec terminal.init
    (connectAndScan 11 ++ sendAndBlock)
    (fun s => (s.handler = .idle ∧ s.tcp = .blocked) ∧
      s.sent.map Sent.text = s.scanned.map sprintfLlu) (by decide +kernel)
  have htwo : ∀ a ∈ connectAndScan 11 ++ sendAndBlock, a.Untroubled := by
    simp [connectAndScan, sendAndBlock, Action.Untroubled, Action.actor, Action.sendFails]
  exact ⟨s, hs, (sent_eq_scanned_iff hs htwo hh ht).mp hsent⟩

end CourseDesign.Terminal
