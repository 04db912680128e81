import CourseDesign.Terminal.Tasks

/-!
# One card, one verdict, one message

In a round of `display_task` the card that is drawn should be the card that is judged, and what
`tcp_client_task` sends should be what it has just formatted: `State.OneCard`.  `rc522_handler`
writes `card_id` without the mutex and `display_task` writes `card_id_str` outside it, so this
depends on the order of the statements.

* `State.Undisturbed` — the condition on a step: the three places where a statement of one task
  gets between two statements of another.
* `settled_preserved` — under it, what is drawn stays the text of `card_id` up to the verdict,
  and `card_id_str` stays the text that was formatted up to `send`.
* `undisturbed_throughout_oneCard` — so every state of an undisturbed run is `OneCard`.
-/

namespace CourseDesign.Terminal

/-- After its `sprintf` and before its verdict. -/
def DisplayPc.inRound : DisplayPc → Bool
  | .draw | .semTake _ | .judge _ => true
  | _ => false

/-- The text on the display while its verdict is still to come. -/
def DisplayPc.drawn : DisplayPc → Option (List UInt8)
  | .semTake drawn | .judge drawn => some drawn
  | _ => none

/-- The value `tcp_client_task` has formatted and not yet sent. -/
def TcpPc.formatted : TcpPc → Option ℕ
  | .send v => some v
  | _ => none

/-- Every ID drawn is the ID judged, and every string sent is the text of the value formatted. -/
structure State.OneCard (s : State) : Prop where
  drawn_eq_judged : ∀ r ∈ s.rounds, r.drawn = sprintfLlu r.judged
  sent_eq_formatted : ∀ x ∈ s.sent, x.text = sprintfLlu x.formatted

/-- What a step must not get in between of: no other card is scanned during a round of
`display_task`, the string it draws is not the one `memset` has cleared, and it does not format
another card while `tcp_client_task` is about to send one. -/
def State.Undisturbed (s : State) : Action → Prop
  | .scan sn => s.display.inRound = true → sn = s.cardId
  | .displayDraw => s.cardIdStr ≠ []
  | .displayFormat => ∀ v ∈ s.tcp.formatted, v = s.cardId
  | _ => True

instance (s : State) : DecidablePred s.Undisturbed
  | .scan sn => inferInstanceAs (Decidable (s.display.inRound = true → sn = s.cardId))
  | .displayDraw => inferInstanceAs (Decidable (s.cardIdStr ≠ []))
  | .displayFormat => inferInstanceAs (Decidable (∀ v ∈ s.tcp.formatted, v = s.cardId))
  | .notifyDisplay | .notifyTcp | .tcpConnect _ | .tcpNotifyTake | .tcpSemTake _ | .tcpMemset
  | .tcpFormat | .tcpSend _ | .tcpSemGive | .tcpDelay | .displayStart | .displayNotifyTake
  | .displaySemTake _ | .displayJudge | .displayFeedback | .displaySemGive | .displayDelay =>
      isTrue trivial

/-! ## The invariant -/

/-- `OneCard`, with what each task holds in its hands. -/
structure State.Settled (s : State) : Prop extends s.OneCard where
  drawing : s.display = .draw → s.cardIdStr = [] ∨ s.cardIdStr = sprintfLlu s.cardId
  judging : ∀ d ∈ s.display.drawn, d = sprintfLlu s.cardId
  sending : ∀ v ∈ s.tcp.formatted, s.cardIdStr = sprintfLlu v

@[simp] theorem DisplayPc.notified_drawn (pc : DisplayPc) : pc.notified.drawn = pc.drawn := by
  cases pc <;> rfl

@[simp] theorem DisplayPc.notified_eq_draw (pc : DisplayPc) : pc.notified = .draw ↔ pc = .draw := by
  cases pc <;> simp [DisplayPc.notified]

@[simp] theorem TcpPc.notified_formatted (pc : TcpPc) : pc.notified.formatted = pc.formatted := by
  cases pc <;> rfl

theorem DisplayPc.inRound_of_drawn {pc : DisplayPc} {d : List UInt8} (h : d ∈ pc.drawn) :
    pc.inRound = true := by
  cases pc <;> simp_all [DisplayPc.drawn, DisplayPc.inRound]

/-- The handler changes `card_id` in the middle of a round only to what it was. -/
theorem settled_stepHandler {s t : State} {a : Action} (hs : s.Settled) (ha : s.Undisturbed a)
    (h : s.stepHandler a = some t) : t.Settled := by
  cases a with
  | scan sn =>
      obtain ⟨-, rfl⟩ := Machine.when_eq_some.mp h
      have hsame : s.display.inRound = true → sn = s.cardId := ha
      refine { hs with drawing := fun hd => ?_, judging := fun d hd => ?_ }
      · rw [hsame (by simp [show s.display = .draw from hd, DisplayPc.inRound])]
        exact hs.drawing hd
      · rw [hsame (DisplayPc.inRound_of_drawn hd)]
        exact hs.judging d hd
  | notifyDisplay =>
      obtain ⟨-, rfl⟩ := Machine.when_eq_some.mp h
      refine { hs with drawing := fun hd => ?_, judging := fun d hd => ?_ }
      · exact hs.drawing ((DisplayPc.notified_eq_draw _).mp hd)
      · exact hs.judging d (by simpa using hd)
  | notifyTcp =>
      obtain ⟨-, rfl⟩ := Machine.when_eq_some.mp h
      exact { hs with sending := fun v hv => hs.sending v (by simpa using hv) }
  | _ => simp [State.stepHandler] at h

/-- `tcp_client_task` clears `card_id_str` and formats it; before a drawing this leaves it cleared
or the text of `card_id`. -/
theorem settled_stepTcp {s t : State} {a : Action} (hs : s.Settled) (h : s.stepTcp a = some t) :
    t.Settled := by
  cases a with
  | tcpConnect ok =>
      obtain ⟨-, rfl⟩ := Machine.when_eq_some.mp h
      refine { hs with sending := fun v hv => ?_ }
      cases ok <;> simp [TcpPc.formatted] at hv
  | tcpNotifyTake =>
      obtain ⟨-, rfl⟩ := Machine.when_eq_some.mp h
      split <;> exact { hs with sending := fun v hv => by simp [TcpPc.formatted] at hv }
  | tcpSemTake pass =>
      cases pass with
      | true =>
          obtain ⟨-, rfl⟩ := Machine.when_eq_some.mp h
          exact { hs with sending := fun v hv => by simp [TcpPc.formatted] at hv }
      | false =>
          obtain ⟨-, rfl⟩ := Machine.when_eq_some.mp h
          exact { hs with sending := fun v hv => by simp [TcpPc.formatted] at hv }
  | tcpMemset =>
      obtain ⟨-, rfl⟩ := Machine.when_eq_some.mp h
      exact
        { hs with
          drawing := fun _ => Or.inl rfl
          sending := fun v hv => by simp [TcpPc.formatted] at hv }
  | tcpFormat =>
      obtain ⟨-, rfl⟩ := Machine.when_eq_some.mp h
      refine { hs with drawing := fun _ => Or.inr rfl, sending := fun v hv => ?_ }
      obtain rfl : s.cardId = v := Option.some.inj hv
      rfl
  | tcpSend err =>
      obtain ⟨v, hpc, rfl⟩ := stepTcp_send h
      refine { hs with sent_eq_formatted := fun x hx => ?_, sending := fun w hw => ?_ }
      · rcases List.mem_append.mp hx with hx | hx
        · exact hs.sent_eq_formatted x hx
        · obtain rfl := List.mem_singleton.mp hx
          exact hs.sending v (by simp [hpc, TcpPc.formatted])
      · dsimp only at hw
        split_ifs at hw <;> simp [TcpPc.formatted] at hw
  | tcpSemGive | tcpDelay =>
      obtain ⟨-, rfl⟩ := Machine.when_eq_some.mp h
      exact { hs with sending := fun v hv => by simp [TcpPc.formatted] at hv }
  | _ => simp [State.stepTcp] at h

/-- `display_task` draws the text it formatted, and judges what it drew. -/
theorem settled_stepDisplay {s t : State} {a : Action} (hs : s.Settled) (ha : s.Undisturbed a)
    (h : s.stepDisplay a = some t) : t.Settled := by
  cases a with
  | displayNotifyTake =>
      obtain ⟨-, rfl⟩ := Machine.when_eq_some.mp h
      split <;>
        exact
          { hs with
            drawing := fun hd => by simp at hd
            judging := fun d hd => by simp [DisplayPc.drawn] at hd }
  | displayFormat =>
      obtain ⟨-, rfl⟩ := Machine.when_eq_some.mp h
      have hsame : ∀ v ∈ s.tcp.formatted, v = s.cardId := ha
      refine
        { hs with
          drawing := fun _ => Or.inr rfl
          judging := fun d hd => ?_
          sending := fun v hv => ?_ }
      · simp [DisplayPc.drawn] at hd
      · rw [hsame v hv]
  | displayDraw =>
      obtain ⟨hpc, rfl⟩ := Machine.when_eq_some.mp h
      have hfull : s.cardIdStr ≠ [] := ha
      refine { hs with drawing := fun hd => by simp at hd, judging := fun d hd => ?_ }
      obtain rfl : s.cardIdStr = d := Option.some.inj hd
      exact (hs.drawing hpc).resolve_left hfull
  | displaySemTake pass =>
      cases pass with
      | true =>
          obtain ⟨drawn, hpc, -, rfl⟩ := stepDisplay_semTake h
          refine { hs with drawing := fun hd => by simp at hd, judging := fun d hd => ?_ }
          exact hs.judging d (by simpa [hpc, DisplayPc.drawn] using hd)
      | false =>
          obtain ⟨drawn, -, rfl⟩ := stepDisplay_semTimeout h
          exact
            { hs with
              drawing := fun hd => by simp at hd
              judging := fun d hd => by simp [DisplayPc.drawn] at hd }
  | displayJudge =>
      obtain ⟨drawn, hpc, rfl⟩ := stepDisplay_judge h
      refine
        { hs with
          drawn_eq_judged := fun r hr => ?_
          drawing := fun hd => by simp at hd
          judging := fun d hd => by simp [DisplayPc.drawn] at hd }
      rcases List.mem_append.mp hr with hr | hr
      · exact hs.drawn_eq_judged r hr
      · obtain rfl := List.mem_singleton.mp hr
        exact hs.judging drawn (by simp [hpc, DisplayPc.drawn])
  | displayFeedback =>
      obtain ⟨verdict, -, rfl⟩ := stepDisplay_feedback h
      exact
        { hs with
          drawing := fun hd => by simp at hd
          judging := fun d hd => by simp [DisplayPc.drawn] at hd }
  | displayStart | displaySemGive | displayDelay =>
      obtain ⟨-, rfl⟩ := Machine.when_eq_some.mp h
      exact
        { hs with
          drawing := fun hd => by simp at hd
          judging := fun d hd => by simp [DisplayPc.drawn] at hd }
  | _ => simp [State.stepDisplay] at h

/-- **Step lemma.** -/
theorem settled_preserved : terminal.Preserves State.Undisturbed State.Settled := by
  intro s a t hs ha h
  cases hactor : a.actor with
  | handler => exact settled_stepHandler hs ha (by simpa [terminal, hactor] using h)
  | tcpClient => exact settled_stepTcp hs (by simpa [terminal, hactor] using h)
  | display => exact settled_stepDisplay hs ha (by simpa [terminal, hactor] using h)

theorem settled_init : terminal.init.Settled := by
  constructor
  · constructor <;> simp [terminal]
  · simp [terminal]
  · simp [terminal, DisplayPc.drawn]
  · simp [terminal, TcpPc.formatted]

/-! ## Every round and every message -/

/-- **One card, one verdict, one message**, in every state of every undisturbed run. -/
theorem undisturbed_throughout_oneCard {as : List Action}
    (h : terminal.Along State.Undisturbed terminal.init as) :
    terminal.Throughout State.OneCard terminal.init as :=
  (Machine.throughout_of_preserves settled_preserved settled_init h).mono
    fun _ hs => hs.toOneCard

/-- Both tasks are up and wait for a card. -/
def bothWaiting : List Action :=
  [.displayStart, .displayNotifyTake, .tcpConnect true, .tcpNotifyTake]

/-- `rc522_handler` for one tag, both notifications included. -/
def handle (sn : ℕ) : List Action := [.scan sn, .notifyDisplay, .notifyTcp]

/-- A round of `display_task` and a message of `tcp_client_task`, one after the other. -/
def displayThenSend : List Action :=
  [.displayFormat, .displayDraw, .displaySemTake true, .displayJudge, .displayFeedback,
    .displaySemGive, .tcpSemTake true, .tcpMemset, .tcpFormat, .tcpSend 2, .tcpSemGive]

/-- Each task done with a card before the other one starts: the run is undisturbed, with one
round and one message in it. -/
theorem orderly_round_oneCard :
    ∃ s, terminal.exec terminal.init (bothWaiting ++ handle 7 ++ displayThenSend) = some s ∧
      s.rounds.length = 1 ∧ s.sent.length = 1 ∧ s.OneCard := by
  obtain ⟨s, hs, hp⟩ := terminal.exists_exec terminal.init
    (bothWaiting ++ handle 7 ++ displayThenSend)
    (fun s => s.rounds.length = 1 ∧ s.sent.length = 1) (by decide +kernel)
  refine ⟨s, hs, hp.1, hp.2, ?_⟩
  exact undisturbed_throughout_oneCard (by decide +kernel) _ (List.prefix_refl _) s hs

/-- Three runs, each breaking one clause of the condition once.  Card 8 comes while card 7 is on
the display: 7 is drawn, 8 is judged.  `memset` comes before the drawing: nothing is drawn, 7 is
judged.  `display_task` formats card 8 before the `send` of card 7: "8" is sent. -/
theorem disturbed_rounds_mix_cards :
    (∃ s, terminal.exec terminal.init
        (bothWaiting ++ handle 7 ++
          [.displayFormat, .displayDraw, .scan 8, .displaySemTake true, .displayJudge]) = some s ∧
      s.rounds = [⟨sprintfLlu 7, 8, false⟩]) ∧
    (∃ s, terminal.exec terminal.init
        (bothWaiting ++ handle 7 ++
          [.displayFormat, .tcpSemTake true, .tcpMemset, .displayDraw, .tcpFormat, .tcpSend 1,
            .tcpSemGive, .displaySemTake true, .displayJudge]) = some s ∧
      s.rounds = [⟨[], 7, false⟩]) ∧
    (∃ s, terminal.exec terminal.init
        (bothWaiting ++ handle 7 ++
          [.tcpSemTake true, .tcpMemset, .tcpFormat, .scan 8, .displayFormat, .tcpSend 1]) =
        some s ∧
      s.sent = [⟨7, sprintfLlu 8⟩]) ∧
    ¬ ∀ as, terminal.Throughout State.OneCard terminal.init as := by
  have hdrawn := terminal.exists_exec terminal.init
    (bothWaiting ++ handle 7 ++
      [.displayFormat, .displayDraw, .scan 8, .displaySemTake true, .displayJudge])
    (fun s => s.rounds = [⟨sprintfLlu 7, 8, false⟩]) (by decide +kernel)
  refine ⟨hdrawn, ?_, ?_, fun hall => ?_⟩
  · exact terminal.exists_exec terminal.init _ (fun s => s.rounds = [⟨[], 7, false⟩])
      (by decide +kernel)
  · exact terminal.exists_exec terminal.init _ (fun s => s.sent = [⟨7, sprintfLlu 8⟩])
      (by decide +kernel)
  · obtain ⟨s, hs, hrounds⟩ := hdrawn
    have hsame := (hall _ _ (List.prefix_refl _) s hs).drawn_eq_judged ⟨sprintfLlu 7, 8, false⟩
      (by simp [hrounds])
    exact absurd hsame (by decide +kernel)

end CourseDesign.Terminal
