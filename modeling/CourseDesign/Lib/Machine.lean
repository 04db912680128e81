import Mathlib.Data.List.Infix
import Mathlib.Logic.Basic
import Mathlib.Algebra.Ring.Nat

/-!
# Labelled machines and their runs

A `Machine` is an initial state and a partial step function.  A label carries every choice the
environment makes — which thread moves, what a call returns, which bytes arrive — so that
"for every interleaving and every outcome" is "for every list of labels".

* `exec` runs a list of labels; it is computable, so a concrete run can be evaluated.
* `Along G` says that every step of a run is taken in a state where its label meets `G`.
* `Preserves G P` is the step obligation, `exec_of_preserves` the run rule it gives, and
  `throughout_of_preserves` the same for every state the run visits.
* `exec_dichotomy` is the rule for exact conditions: either every step met the condition and the
  invariant holds at the end, or a step broke it and the damage is still there.
* `log_ok_iff_along` is that rule for what a run writes to a log, `along_iff_throughoutWith` the
  one for damage that shows only after some more steps.
* `exec_measure` adds up what each step adds to a measure.
* `exec_log` is what a run appends to a log, as the trace of its steps.
* `exec_simulates` runs an abstract machine along a concrete one.
* `exec_filter` leaves out the labels at which a run only stutters.
-/

/-- A machine: a label that is not enabled in a state has no step there. -/
structure Machine (σ α : Type*) where
  init : σ
  step : σ → α → Option σ

namespace Machine

variable {σ τ α β : Type*}

/-- A step that moves to `s` when its guard `c` holds, and is not enabled otherwise. -/
def when (c : Prop) [Decidable c] (s : σ) : Option σ := if c then some s else none

/-- **Inversion of a guarded step**: the guard held and the state is the one named. -/
@[simp] theorem when_eq_some {c : Prop} [Decidable c] {s t : σ} :
    when c s = some t ↔ c ∧ s = t := by
  simp [when]

variable (M : Machine σ α)

/-- Run a list of labels; `none` when some label is not enabled where it is taken. -/
def exec : σ → List α → Option σ
  | s, [] => some s
  | s, a :: as => (M.step s a).bind fun t => exec t as

@[simp] theorem exec_nil (s : σ) : M.exec s [] = some s := rfl

theorem exec_cons_eq_some {s u : σ} {a : α} {as : List α} :
    M.exec s (a :: as) = some u ↔ ∃ t, M.step s a = some t ∧ M.exec t as = some u := by
  simp [exec, Option.bind_eq_some_iff]

theorem exec_append_eq_some {s u : σ} {as bs : List α} :
    M.exec s (as ++ bs) = some u ↔ ∃ t, M.exec s as = some t ∧ M.exec t bs = some u := by
  induction as generalizing s with
  | nil => simp
  | cons a as ih =>
      simp only [List.cons_append, exec_cons_eq_some, ih]
      constructor
      · rintro ⟨t, ht, v, hv, hu⟩
        exact ⟨v, ⟨t, ht, hv⟩, hu⟩
      · rintro ⟨v, ⟨t, ht, hv⟩, hu⟩
        exact ⟨t, ht, v, hv, hu⟩

theorem exec_concat_eq_some {s u : σ} {as : List α} {a : α} :
    M.exec s (as ++ [a]) = some u ↔ ∃ t, M.exec s as = some t ∧ M.step t a = some u := by
  simp [exec_append_eq_some, exec_cons_eq_some]

/-- A concrete run is evaluated by deciding a property of the state it ends in. -/
theorem exists_exec (s : σ) (as : List α) (p : σ → Prop) [DecidablePred p]
    (h : (M.exec s as).any (fun t => decide (p t)) = true) :
    ∃ t, M.exec s as = some t ∧ p t := by
  obtain ⟨t, ht, hp⟩ := (Option.any_eq_true _ _).mp h
  exact ⟨t, ht, of_decide_eq_true hp⟩

/-- The same for a run that is stopped on its way. -/
theorem exists_exec_exec (s : σ) (as bs : List α) (p q : σ → Prop) [DecidablePred p]
    [DecidablePred q] (h : (M.exec s as).any (fun t => decide (p t) &&
      (M.exec t bs).any fun u => decide (q u)) = true) :
    ∃ t u, M.exec s as = some t ∧ p t ∧ M.exec t bs = some u ∧ q u := by
  obtain ⟨t, ht, hpq⟩ := (Option.any_eq_true _ _).mp h
  rw [Bool.and_eq_true, decide_eq_true_eq] at hpq
  obtain ⟨u, hu, hq⟩ := M.exists_exec t bs q hpq.2
  exact ⟨t, u, ht, hpq.1, hu, hq⟩

/-! ## Conditions on the steps of a run -/

/-- Every step of the run is taken in a state where its label meets `G`. -/
def Along (G : σ → α → Prop) : σ → List α → Prop
  | _, [] => True
  | s, a :: as => G s a ∧ ∀ t, M.step s a = some t → Along G t as

variable {M} {G : σ → α → Prop} {P Q : σ → Prop}

instance decidableAlong [∀ s a, Decidable (G s a)] : ∀ s as, Decidable (M.Along G s as)
  | _, [] => isTrue trivial
  | s, a :: as =>
      have : Decidable (∀ t, M.step s a = some t → M.Along G t as) :=
        match M.step s a with
        | none => isTrue fun _ h => nomatch h
        | some u =>
            have := decidableAlong u as
            decidable_of_iff (M.Along G u as) (by simp)
      inferInstanceAs (Decidable (_ ∧ _))

theorem along_append {s t : σ} {as bs : List α} (h : M.exec s as = some t) :
    M.Along G s (as ++ bs) ↔ M.Along G s as ∧ M.Along G t bs := by
  induction as generalizing s with
  | nil =>
      obtain rfl : s = t := by simpa using h
      simp [Along]
  | cons a as ih =>
      obtain ⟨u, hu, hrest⟩ := (M.exec_cons_eq_some).mp h
      simp only [List.cons_append, Along, hu, Option.some.injEq, forall_eq', ih hrest, and_assoc]

/-- A condition on the labels alone is met along every run over such labels. -/
theorem along_of_forall {H : α → Prop} {as : List α} (h : ∀ a ∈ as, H a) (s : σ) :
    M.Along (fun _ a => H a) s as := by
  induction as generalizing s with
  | nil => trivial
  | cons a as ih => exact ⟨h a (by simp), fun t _ => ih (fun b hb => h b (by simp [hb])) t⟩

/-- A run along a condition on the labels has no other label. -/
theorem forall_of_along {H : α → Prop} {s t : σ} {as : List α} (hex : M.exec s as = some t)
    (h : M.Along (fun _ a => H a) s as) : ∀ a ∈ as, H a := by
  induction as generalizing s with
  | nil => simp
  | cons a as ih =>
      obtain ⟨u, hu, hrest⟩ := (M.exec_cons_eq_some).mp hex
      intro b hb
      rcases List.mem_cons.mp hb with rfl | hb
      · exact h.1
      · exact ih hrest (h.2 u hu) b hb

theorem Along.of_isPrefix {s : σ} {as bs : List α} (h : M.Along G s as) (hp : bs <+: as) :
    M.Along G s bs := by
  induction bs generalizing s as with
  | nil => trivial
  | cons b bs ih =>
      obtain ⟨cs, rfl⟩ := hp
      exact ⟨h.1, fun t ht => ih (h.2 t ht) ⟨cs, rfl⟩⟩

theorem Along.mono {H : σ → α → Prop} {s : σ} {as : List α} (h : M.Along G s as)
    (hGH : ∀ s a, G s a → H s a) : M.Along H s as := by
  induction as generalizing s with
  | nil => trivial
  | cons a as ih => exact ⟨hGH s a h.1, fun t ht => ih (h.2 t ht)⟩

theorem Along.and {H : σ → α → Prop} {s : σ} {as : List α} (hg : M.Along G s as)
    (hh : M.Along H s as) : M.Along (fun s a => G s a ∧ H s a) s as := by
  induction as generalizing s with
  | nil => trivial
  | cons a as ih => exact ⟨⟨hg.1, hh.1⟩, fun t ht => ih (hg.2 t ht) (hh.2 t ht)⟩

/-! ## Invariants -/

/-- The step obligation of an invariant: a step that meets `G` keeps `P`. -/
def Preserves (M : Machine σ α) (G : σ → α → Prop) (P : σ → Prop) : Prop :=
  ∀ ⦃s a t⦄, P s → G s a → M.step s a = some t → P t

/-- **The run rule**: a property kept by every step that meets `G` holds at the end of every run
along `G`. -/
theorem exec_of_preserves (hP : M.Preserves G P) {s t : σ} {as : List α} (hs : P s)
    (hG : M.Along G s as) (hex : M.exec s as = some t) : P t := by
  induction as generalizing s with
  | nil =>
      obtain rfl : s = t := by simpa using hex
      exact hs
  | cons a as ih =>
      obtain ⟨u, hu, hrest⟩ := (M.exec_cons_eq_some).mp hex
      exact ih (hP hs hG.1 hu) (hG.2 u hu) hrest

/-- What the invariant says about the step to come, it says about every step of the run. -/
theorem Along.of_preserves {H : σ → α → Prop} (hP : M.Preserves G P)
    (hH : ∀ ⦃s a t⦄, P s → M.step s a = some t → H s a) {s t : σ} {as : List α} (hs : P s)
    (hG : M.Along G s as) (hex : M.exec s as = some t) : M.Along H s as := by
  induction as generalizing s with
  | nil => trivial
  | cons a as ih =>
      obtain ⟨u, hu, hrest⟩ := (M.exec_cons_eq_some).mp hex
      refine ⟨hH hs hu, fun v hv => ?_⟩
      obtain rfl : u = v := by simpa [hu] using hv
      exact ih (hP hs hG.1 hu) (hG.2 u hu) hrest

/-- **The rule for a measure** that every step raises by its own cost: a run raises it by the sum.
-/
theorem exec_measure {m : σ → ℕ} {cost : α → ℕ}
    (hstep : ∀ ⦃s a t⦄, M.step s a = some t → m t = m s + cost a) {s t : σ} {as : List α}
    (hex : M.exec s as = some t) : m t = m s + (as.map cost).sum := by
  induction as generalizing s with
  | nil =>
      obtain rfl : s = t := by simpa using hex
      simp
  | cons a as ih =>
      obtain ⟨u, hu, hrest⟩ := (M.exec_cons_eq_some).mp hex
      rw [ih hrest, hstep hu, List.map_cons, List.sum_cons, Nat.add_assoc]

/-- `P` holds in every state the run visits, its first and its last included. -/
def Throughout (M : Machine σ α) (P : σ → Prop) (s : σ) (as : List α) : Prop :=
  ∀ bs, bs <+: as → ∀ t, M.exec s bs = some t → P t

theorem throughout_of_preserves (hP : M.Preserves G P) {s : σ} {as : List α} (hs : P s)
    (hG : M.Along G s as) : M.Throughout P s as :=
  fun _ hbs _ hex => exec_of_preserves hP hs (hG.of_isPrefix hbs) hex

theorem Throughout.mono {s : σ} {as : List α} (h : M.Throughout P s as) (hPQ : ∀ t, P t → Q t) :
    M.Throughout Q s as :=
  fun bs hbs t hex => hPQ t (h bs hbs t hex)

/-- **The first step that breaks a condition.**  A run that does not meet `G` throughout splits at
a step that breaks it, and everything before that step met it. -/
theorem along_or_violation {s t : σ} {as : List α} (hex : M.exec s as = some t) :
    M.Along G s as ∨ ∃ bs a cs u v, as = bs ++ a :: cs ∧ M.Along G s bs ∧ M.exec s bs = some u ∧
      ¬ G u a ∧ M.step u a = some v ∧ M.exec v cs = some t := by
  induction as generalizing s with
  | nil => exact Or.inl trivial
  | cons a as ih =>
      obtain ⟨u, hu, hrest⟩ := (M.exec_cons_eq_some).mp hex
      by_cases hg : G s a
      · rcases ih hrest with h | ⟨bs, b, cs, v, w, rfl, hal, hv, hb, hw, hw'⟩
        · refine Or.inl ⟨hg, fun t ht => ?_⟩
          obtain rfl : u = t := by simpa [hu] using ht
          exact h
        · refine Or.inr ⟨a :: bs, b, cs, v, w, rfl, ⟨hg, fun t ht => ?_⟩, ?_, hb, hw, hw'⟩
          · obtain rfl : u = t := by simpa [hu] using ht
            exact hal
          · exact (M.exec_cons_eq_some).mpr ⟨u, hu, hv⟩
      · exact Or.inr ⟨[], a, as, s, u, rfl, trivial, rfl, hg, hu, hrest⟩

/-- **The rule for an exact condition.**  Under the environment assumption `E`, `P` is kept by the
steps that meet `G`, a step that breaks `G` causes the damage `Q`, and `Q` is never repaired: then
a run meets `G` throughout and ends in `P`, or it does not and ends in `Q`. -/
theorem exec_dichotomy {E : σ → α → Prop} (hP : M.Preserves (fun s a => E s a ∧ G s a) P)
    (hbreak : ∀ ⦃s a t⦄, P s → E s a → ¬ G s a → M.step s a = some t → Q t)
    (hQ : M.Preserves E Q) {s t : σ} {as : List α} (hs : P s) (hE : M.Along E s as)
    (hex : M.exec s as = some t) :
    (M.Along G s as ∧ P t) ∨ (¬ M.Along G s as ∧ Q t) := by
  by_cases hG : M.Along G s as
  · exact Or.inl ⟨hG, exec_of_preserves hP hs (hE.and hG) hex⟩
  · refine Or.inr ⟨hG, ?_⟩
    rcases along_or_violation (G := G) hex with h | ⟨bs, a, cs, u, v, rfl, hal, hu, hga, hv, ht⟩
    · exact absurd h hG
    · obtain ⟨hEbs, hEa, hEcs⟩ : M.Along E s bs ∧ E u a ∧ M.Along E v cs := by
        have h := (along_append hu).mp hE
        exact ⟨h.1, h.2.1, h.2.2 v hv⟩
      have hPu : P u := exec_of_preserves hP hs (hEbs.and hal) hu
      exact exec_of_preserves hQ (hbreak hPu hEa hga hv) hEcs ht

/-- **The rule for a log.**  A step appends its `entries` to a log that nothing shortens, and under
the invariant `I` these are all `ok` exactly when the step meets `G`, which keeps `I`: then a run
has only `ok` entries in its log if and only if it meets `G` throughout. -/
theorem log_ok_iff_along {γ : Type*} {log : σ → List γ} {entries : σ → α → List γ} {ok : γ → Prop}
    {I : σ → Prop} (hlog : ∀ ⦃s a t⦄, M.step s a = some t → log t = log s ++ entries s a)
    (hiff : ∀ ⦃s a t⦄, I s → M.step s a = some t → ((∀ c ∈ entries s a, ok c) ↔ G s a))
    (hI : M.Preserves G I) {s t : σ} {as : List α} (hs : I s) (hok : ∀ c ∈ log s, ok c)
    (hex : M.exec s as = some t) : (∀ c ∈ log t, ok c) ↔ M.Along G s as := by
  have hgrow : ∀ ⦃s a t⦄, M.step s a = some t →
      ((∀ c ∈ log t, ok c) ↔ (∀ c ∈ log s, ok c) ∧ ∀ c ∈ entries s a, ok c) := by
    intro s a t hstep
    rw [hlog hstep, List.forall_mem_append]
  have hrun := exec_dichotomy (M := M) (E := fun _ _ => True) (G := G)
    (P := fun s => I s ∧ ∀ c ∈ log s, ok c) (Q := fun s => ¬ ∀ c ∈ log s, ok c)
    (fun s a t hs hg hstep => ⟨hI hs.1 hg.2 hstep,
      (hgrow hstep).mpr ⟨hs.2, (hiff hs.1 hstep).mpr hg.2⟩⟩)
    (fun s a t hs _ hg hstep hall => hg ((hiff hs.1 hstep).mp ((hgrow hstep).mp hall).2))
    (fun s a t hs _ hstep hall => hs ((hgrow hstep).mp hall).1)
    ⟨hs, hok⟩ (along_of_forall (fun _ _ => trivial) s) hex
  rcases hrun with ⟨hal, -, hall⟩ | ⟨hal, hbad⟩
  · exact ⟨fun _ => hal, fun _ => hall⟩
  · exact ⟨fun hall => absurd hall hbad, fun h => absurd h hal⟩

/-- `P` holds in every state the run visits, and wherever steps `C` lead from there. -/
def ThroughoutWith (M : Machine σ α) (C : α → Prop) (P : σ → Prop) (s : σ) (as : List α) : Prop :=
  ∀ bs, bs <+: as → ∀ cs, (∀ c ∈ cs, C c) → ∀ t, M.exec s (bs ++ cs) = some t → P t

/-- In particular it holds where the run ends. -/
theorem ThroughoutWith.last {C : α → Prop} {s t : σ} {as : List α} (h : M.ThroughoutWith C P s as)
    (hex : M.exec s as = some t) : P t :=
  h as (List.prefix_refl _) [] (by simp) t (by rw [List.append_nil, hex])

/-- **The rule for an exact condition up to completions.**  `I` is kept by the steps that meet `G`
and gives `P`, the steps `C` always meet `G`, and after a step that breaks `G` some steps `C` lead
out of `P`: then a run meets `G` throughout if and only if `P` holds throughout, whenever the run
is stopped and only steps `C` follow. -/
theorem along_iff_throughoutWith {C : α → Prop} {I : σ → Prop} (hI : M.Preserves G I)
    (hIP : ∀ t, I t → P t) (hC : ∀ s a, C a → G s a)
    (hbreak : ∀ ⦃s a t⦄, I s → ¬ G s a → M.step s a = some t →
      ∃ cs, (∀ c ∈ cs, C c) ∧ ∃ u, M.exec t cs = some u ∧ ¬ P u)
    {s t : σ} {as : List α} (hs : I s) (hex : M.exec s as = some t) :
    M.Along G s as ↔ M.ThroughoutWith C P s as := by
  constructor
  · intro hG bs hbs cs hcs u hu
    obtain ⟨v, hv, hrest⟩ := (M.exec_append_eq_some).mp hu
    have hIv : I v := exec_of_preserves hI hs (hG.of_isPrefix hbs) hv
    have hGcs : M.Along G v cs := (along_of_forall hcs v).mono hC
    exact hIP u (exec_of_preserves hI hIv hGcs hrest)
  · intro hsafe
    rcases along_or_violation (G := G) hex with hal | ⟨bs, a, cs, u, v, rfl, hal, hu, hga, hv, -⟩
    · exact hal
    · have hIu : I u := exec_of_preserves hI hs hal hu
      obtain ⟨ds, hds, w, hw, hbad⟩ := hbreak hIu hga hv
      refine absurd (hsafe (bs ++ [a]) ⟨cs, by simp⟩ ds hds w ?_) hbad
      rw [List.append_assoc]
      exact (M.exec_append_eq_some).mpr ⟨u, hu, (M.exec_cons_eq_some).mpr ⟨v, hv, hw⟩⟩

/-! ## Simulation -/

/-- The abstract labels a concrete run stands for. -/
def trace (M : Machine σ α) (lab : σ → α → List β) : σ → List α → List β
  | _, [] => []
  | s, a :: as => lab s a ++ ((M.step s a).map fun t => trace M lab t as).getD []

theorem map_trace {γ : Type*} (f : β → γ) (lab : σ → α → List β) (s : σ) (as : List α) :
    (M.trace lab s as).map f = M.trace (fun s a => (lab s a).map f) s as := by
  induction as generalizing s with
  | nil => rfl
  | cons a as ih =>
      rw [trace, trace, List.map_append]
      cases M.step s a with
      | none => rfl
      | some t => simp only [Option.map_some, Option.getD_some, ih]

/-- What holds of the labels of every step holds of the trace. -/
theorem forall_mem_trace {lab : σ → α → List β} {p : β → Prop} {s : σ} {as : List α}
    (h : ∀ a ∈ as, ∀ s, ∀ b ∈ lab s a, p b) : ∀ b ∈ M.trace lab s as, p b := by
  induction as generalizing s with
  | nil => simp [trace]
  | cons a as ih =>
      intro b hb
      rw [trace, List.mem_append] at hb
      rcases hb with hb | hb
      · exact h a (by simp) s b hb
      · cases hstep : M.step s a with
        | none => simp [hstep] at hb
        | some t =>
            rw [hstep, Option.map_some, Option.getD_some] at hb
            exact ih (fun c hc => h c (List.mem_cons_of_mem _ hc)) b hb

/-- The trace is what a run appends to a log. -/
theorem exec_log {log : σ → List β} {lab : σ → α → List β}
    (hlog : ∀ ⦃s a t⦄, M.step s a = some t → log t = log s ++ lab s a) {s t : σ} {as : List α}
    (hex : M.exec s as = some t) : log t = log s ++ M.trace lab s as := by
  induction as generalizing s with
  | nil =>
      obtain rfl : s = t := by simpa using hex
      rw [trace, List.append_nil]
  | cons a as ih =>
      obtain ⟨u, hu, hrest⟩ := (M.exec_cons_eq_some).mp hex
      rw [ih hrest, hlog hu, List.append_assoc]
      simp only [trace, hu, Option.map_some, Option.getD_some]

/-- **Forward simulation.**  If every concrete step that meets `G` is matched by the abstract run
over its labels, every concrete run along `G` is matched by the abstract run over its trace. -/
theorem exec_simulates {N : Machine τ β} {lab : σ → α → List β} {R : σ → τ → Prop}
    (hstep : ∀ ⦃s a s' t⦄, R s t → G s a → M.step s a = some s' →
      ∃ t', N.exec t (lab s a) = some t' ∧ R s' t')
    {s s' : σ} {t : τ} {as : List α} (hR : R s t) (hG : M.Along G s as)
    (hex : M.exec s as = some s') :
    ∃ t', N.exec t (M.trace lab s as) = some t' ∧ R s' t' := by
  induction as generalizing s t with
  | nil =>
      obtain rfl : s = s' := by simpa using hex
      exact ⟨t, rfl, hR⟩
  | cons a as ih =>
      obtain ⟨u, hu, hrest⟩ := (M.exec_cons_eq_some).mp hex
      obtain ⟨t₁, ht₁, hR₁⟩ := hstep hR hG.1 hu
      obtain ⟨t₂, ht₂, hR₂⟩ := ih hR₁ (hG.2 u hu) hrest
      refine ⟨t₂, ?_, hR₂⟩
      simp only [trace, hu, Option.map_some, Option.getD_some]
      exact (N.exec_append_eq_some).mpr ⟨t₁, ht₁, ht₂⟩

/-- **Stuttering.**  If a step over a label that is not kept changes nothing that `R` sees and has
an empty trace, and a kept one is taken alike on both sides, a run and the run over its kept labels
end in states that `R` relates, with the same trace. -/
theorem exec_filter {keep : α → Bool} {lab : σ → α → List β} {R : σ → σ → Prop}
    (hkeep : ∀ ⦃s t a s'⦄, R s t → keep a = true → M.step s a = some s' →
      ∃ t', M.step t a = some t' ∧ R s' t' ∧ lab s a = lab t a)
    (hskip : ∀ ⦃s t a s'⦄, R s t → keep a = false → M.step s a = some s' →
      R s' t ∧ lab s a = [])
    {s t s' : σ} {as : List α} (hR : R s t) (hex : M.exec s as = some s') :
    ∃ t', M.exec t (as.filter keep) = some t' ∧ R s' t' ∧
      M.trace lab s as = M.trace lab t (as.filter keep) := by
  induction as generalizing s t with
  | nil =>
      obtain rfl : s = s' := by simpa using hex
      exact ⟨t, rfl, hR, rfl⟩
  | cons a as ih =>
      obtain ⟨u, hu, hrest⟩ := (M.exec_cons_eq_some).mp hex
      cases ha : keep a with
      | true =>
          obtain ⟨v, hv, hR₁, hlab⟩ := hkeep hR ha hu
          obtain ⟨t', ht', hR', htrace⟩ := ih hR₁ hrest
          rw [List.filter_cons_of_pos ha]
          refine ⟨t', (M.exec_cons_eq_some).mpr ⟨v, hv, ht'⟩, hR', ?_⟩
          simp only [trace, hu, hv, Option.map_some, Option.getD_some, hlab, htrace]
      | false =>
          obtain ⟨hR₁, hlab⟩ := hskip hR ha hu
          obtain ⟨t', ht', hR', htrace⟩ := ih hR₁ hrest
          rw [List.filter_cons_of_neg (by simp [ha])]
          refine ⟨t', ht', hR', ?_⟩
          simp only [trace, hu, Option.map_some, Option.getD_some, hlab, htrace, List.nil_append]

end Machine
