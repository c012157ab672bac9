import Mathlib.Data.List.Induction
import Mathlib.Order.Basic

/-!
# Deterministic machines with outputs, and their runs

A machine here is nothing but its step function `σ → ε → Option (ω × σ)`: in state `s`, event `e`
either is not allowed (`none`) or produces an output and the next state.  Everything that is
claimed "after every call" or "in every run" of a program is a statement about `Machine.run`, and
this file has the ways such a statement is proved:

* `Machine.run_invariant` — a predicate of the state that every step keeps, where a step may
  assume the guard `P` and the run is one along which every step meets `P` (`Machine.Along`);
* `Machine.run_history` — the same for a predicate of the state *and of the events that led to
  it*, for invariants that relate the state to its own past;
* `Machine.run_simulation` — a relation between two machines that every step of the first can be
  answered through, with the same outputs, by the second; and `Machine.run_stuttering`, where some
  steps of the first are none of the second.

Where a predicate is kept by exactly the steps that meet a guard, it holds in every state of a run
exactly when the guard is met along it: `Machine.always_iff_along`.

Runs are built from the left, as programs run; the invariants are proved from the right, as
histories grow, and `Machine.run_concat` is the bridge.
-/

set_option autoImplicit false

namespace Machine

variable {σ τ ε ω : Type*}

/-- Run the machine on a list of events: the outputs in order and the last state, or `none` if
some event was not allowed where it came. -/
def run (step : σ → ε → Option (ω × σ)) : σ → List ε → Option (List ω × σ)
  | s, [] => some ([], s)
  | s, e :: es =>
    match step s e with
    | none => none
    | some (o, s₁) =>
      match run step s₁ es with
      | none => none
      | some (os, s₂) => some (o :: os, s₂)

/-- Every step of the run from `s` is taken in a state and with an event that satisfy `P`. -/
def Along (step : σ → ε → Option (ω × σ)) (P : σ → ε → Prop) : σ → List ε → Prop
  | _, [] => True
  | s, e :: es => P s e ∧ ∀ o s', step s e = some (o, s') → Along step P s' es

variable {step : σ → ε → Option (ω × σ)} {P Q : σ → ε → Prop}

/-- Whether a guard holds along a run can be computed where the guard can. -/
instance Along.decidable [∀ s e, Decidable (P s e)] : ∀ s es, Decidable (Along step P s es)
  | _, [] => isTrue trivial
  | s, e :: es =>
    match hs : step s e with
    | none => decidable_of_iff (P s e) (by simp [Along, hs])
    | some (o, s') =>
      have := Along.decidable s' es
      decidable_of_iff (P s e ∧ Along step P s' es) (by simp [Along, hs])

@[simp] theorem run_nil (s : σ) : run step s [] = some ([], s) := rfl

theorem run_cons {s s' : σ} {e : ε} {es : List ε} {os : List ω} :
    run step s (e :: es) = some (os, s') ↔
      ∃ o s₁ os', step s e = some (o, s₁) ∧ run step s₁ es = some (os', s') ∧ os = o :: os' := by
  rw [run]
  cases h : step s e with
  | none => simp
  | some r =>
    obtain ⟨o, s₁⟩ := r
    cases hr : run step s₁ es with
    | none => simp [hr]
    | some r' => obtain ⟨os', s₂⟩ := r'; simp [hr]; grind

theorem run_append {s s' : σ} {es fs : List ε} {os : List ω} :
    run step s (es ++ fs) = some (os, s') ↔
      ∃ s₁ os₁ os₂, run step s es = some (os₁, s₁) ∧ run step s₁ fs = some (os₂, s') ∧
        os = os₁ ++ os₂ := by
  induction es generalizing s os with
  | nil => simp
  | cons e es ih =>
    simp only [List.cons_append, run_cons, ih]
    constructor
    · rintro ⟨o, s₁, os', hs, ⟨s₂, os₁, os₂, h₁, h₂, rfl⟩, rfl⟩
      exact ⟨s₂, o :: os₁, os₂, ⟨o, s₁, os₁, hs, h₁, rfl⟩, h₂, rfl⟩
    · rintro ⟨s₂, os₁, os₂, ⟨o, s₁, os', hs, h₁, rfl⟩, h₂, rfl⟩
      exact ⟨o, s₁, os' ++ os₂, hs, ⟨s₂, os', os₂, h₁, h₂, rfl⟩, rfl⟩

/-- Each step has an output. -/
theorem run_length {s s' : σ} {es : List ε} {os : List ω} (hr : run step s es = some (os, s')) :
    os.length = es.length := by
  induction es generalizing s os with
  | nil =>
    cases hr
    rfl
  | cons e es ih =>
    obtain ⟨o, s₁, os', -, hr', rfl⟩ := run_cons.mp hr
    rw [List.length_cons, ih hr', List.length_cons]

/-- The last step of a run. -/
theorem run_concat {s s' : σ} {es : List ε} {e : ε} {os : List ω} :
    run step s (es ++ [e]) = some (os, s') ↔
      ∃ s₁ os₁ o, run step s es = some (os₁, s₁) ∧ step s₁ e = some (o, s') ∧
        os = os₁ ++ [o] := by
  rw [run_append]
  constructor
  · rintro ⟨s₁, os₁, os₂, h, hl, rfl⟩
    obtain ⟨o, s₂, os', hs, hn, rfl⟩ := run_cons.mp hl
    cases hn
    exact ⟨s₁, os₁, o, h, hs, rfl⟩
  · rintro ⟨s₁, os₁, o, h, hs, rfl⟩
    exact ⟨s₁, os₁, [o], h, run_cons.mpr ⟨o, s', [], hs, rfl, rfl⟩, rfl⟩

theorem along_append {s : σ} {es fs : List ε} :
    Along step P s (es ++ fs) ↔
      Along step P s es ∧ ∀ os s', run step s es = some (os, s') → Along step P s' fs := by
  induction es generalizing s with
  | nil => simp [Along]
  | cons e es ih =>
    simp only [List.cons_append, Along, ih, run_cons]
    constructor
    · rintro ⟨hp, h⟩
      refine ⟨⟨hp, fun o s' hs ↦ (h o s' hs).1⟩, ?_⟩
      rintro os s' ⟨o, s₁, os', hs, hr, rfl⟩
      exact (h o s₁ hs).2 os' s' hr
    · rintro ⟨⟨hp, h⟩, h'⟩
      exact ⟨hp, fun o s' hs ↦ ⟨h o s' hs, fun os s₂ hr ↦ h' _ s₂ ⟨o, s', os, hs, hr, rfl⟩⟩⟩

/-- A guard holds along a run that has a first step if it holds of that and along the rest. -/
theorem Along.cons {s s' : σ} {e : ε} {es : List ε} {o : ω} (hP : P s e)
    (hs : step s e = some (o, s')) (h : Along step P s' es) : Along step P s (e :: es) := by
  refine ⟨hP, fun o₁ s₁ hs₁ ↦ ?_⟩
  rw [hs] at hs₁
  cases hs₁
  exact h

/-- A guard holds along a run with one more event exactly when it held along the run and holds of
the new step. -/
theorem along_concat {s : σ} {es : List ε} {e : ε} :
    Along step P s (es ++ [e]) ↔
      Along step P s es ∧ ∀ os s', run step s es = some (os, s') → P s' e := by
  simp [along_append, Along]

theorem Along.mono (hPQ : ∀ s e, P s e → Q s e) {s : σ} {es : List ε}
    (h : Along step P s es) : Along step Q s es := by
  induction es generalizing s with
  | nil => trivial
  | cons e es ih => exact ⟨hPQ _ _ h.1, fun o s' hs ↦ ih (h.2 o s' hs)⟩

theorem Along.and {s : σ} {es : List ε} (hP : Along step P s es) (hQ : Along step Q s es) :
    Along step (fun s e ↦ P s e ∧ Q s e) s es := by
  induction es generalizing s with
  | nil => trivial
  | cons e es ih =>
    exact ⟨⟨hP.1, hQ.1⟩, fun o s' hs ↦ ih (hP.2 o s' hs) (hQ.2 o s' hs)⟩

/-- Where a history that has just grown can be split: where it could be before, or at its end. -/
theorem concat_eq_append_cons {es pre post : List ε} {e e' : ε} :
    es ++ [e] = pre ++ e' :: post ↔
      (∃ post', post = post' ++ [e] ∧ es = pre ++ e' :: post') ∨
        post = [] ∧ es = pre ∧ e = e' := by
  refine ⟨fun h ↦ ?_, ?_⟩
  · rcases List.eq_nil_or_concat post with rfl | ⟨post', e₁, rfl⟩
    · obtain ⟨hes, he⟩ := List.append_inj' h rfl
      exact Or.inr ⟨rfl, hes, List.singleton_inj.mp he⟩
    · rw [List.concat_eq_append, ← List.cons_append, ← List.append_assoc] at h
      obtain ⟨hes, he⟩ := List.append_inj' h rfl
      exact Or.inl ⟨post', by rw [List.concat_eq_append, he], hes⟩
  · rintro (⟨post', rfl, rfl⟩ | ⟨rfl, rfl, rfl⟩)
    · simp
    · rfl

/-- A machine that answers every event has a run on every list of events. -/
theorem run_total {f : σ → ε → ω × σ} (s : σ) (es : List ε) :
    ∃ os s', run (fun s e ↦ some (f s e)) s es = some (os, s') := by
  induction es generalizing s with
  | nil => exact ⟨[], s, rfl⟩
  | cons e es ih =>
    obtain ⟨os, s', hr⟩ := ih (f s e).2
    exact ⟨(f s e).1 :: os, s', run_cons.mpr ⟨_, _, os, rfl, hr, rfl⟩⟩

/-- `P` holds of every step that the run makes, given the outputs before it. -/
def Throughout (step : σ → ε → Option (ω × σ)) (P : List ω → σ → ε → σ → Prop) (s : σ)
    (es : List ε) : Prop :=
  ∀ pre e post os s₁ o s₂, es = pre ++ e :: post → run step s pre = some (os, s₁) →
    step s₁ e = some (o, s₂) → P os s₁ e s₂

theorem throughout_congr {P Q : List ω → σ → ε → σ → Prop} {s : σ} {es : List ε}
    (h : ∀ pre e os s₁ o s₂, run step s pre = some (os, s₁) → step s₁ e = some (o, s₂) →
      (P os s₁ e s₂ ↔ Q os s₁ e s₂)) :
    Throughout step P s es ↔ Throughout step Q s es := by
  refine ⟨fun hP pre e post os s₁ o s₂ heq hr hs ↦ ?_, fun hQ pre e post os s₁ o s₂ heq hr hs ↦ ?_⟩
  · exact (h pre e os s₁ o s₂ hr hs).mp (hP pre e post os s₁ o s₂ heq hr hs)
  · exact (h pre e os s₁ o s₂ hr hs).mpr (hQ pre e post os s₁ o s₂ heq hr hs)

/-! ## Invariants -/

/-- **Invariants of the state.**  What the first state satisfies and every guarded step keeps, the
last state of a guarded run satisfies. -/
theorem run_invariant {I : σ → Prop}
    (hstep : ∀ s e o s', I s → P s e → step s e = some (o, s') → I s')
    {s s' : σ} {es : List ε} {os : List ω} (h₀ : I s) (hP : Along step P s es)
    (hr : run step s es = some (os, s')) : I s' := by
  induction es generalizing s os with
  | nil => simp only [run_nil, Option.some.injEq, Prod.mk.injEq] at hr; exact hr.2 ▸ h₀
  | cons e es ih =>
    obtain ⟨o, s₁, os', hs, hr', rfl⟩ := run_cons.mp hr
    exact ih (hstep s e o s₁ h₀ hP.1 hs) (hP.2 o s₁ hs) hr'

/-- **Invariants of the state and its past.**  `I es os s` may speak of the events `es` that led
to `s` and of the outputs `os` they produced. -/
theorem run_history {s₀ : σ} {I : List ε → List ω → σ → Prop} (h₀ : I [] [] s₀)
    (hstep : ∀ es os s e o s', run step s₀ es = some (os, s) → I es os s → P s e →
      step s e = some (o, s') → I (es ++ [e]) (os ++ [o]) s')
    {s : σ} {es : List ε} {os : List ω} (hP : Along step P s₀ es)
    (hr : run step s₀ es = some (os, s)) : I es os s := by
  induction es using List.reverseRecOn generalizing os s with
  | nil =>
    simp only [run_nil, Option.some.injEq, Prod.mk.injEq] at hr
    obtain ⟨rfl, rfl⟩ := hr
    exact h₀
  | append_singleton es e ih =>
    obtain ⟨s₁, os₁, o, hr₁, hs, rfl⟩ := run_concat.mp hr
    rw [along_concat] at hP
    exact hstep es os₁ s₁ e o s hr₁ (ih hP.1 hr₁) (hP.2 os₁ s₁ hr₁) hs

theorem along_true {s : σ} {es : List ε} : Along step (fun _ _ ↦ True) s es := by
  induction es generalizing s with
  | nil => trivial
  | cons e es ih => exact ⟨trivial, fun _ _ _ ↦ ih⟩

/-- A guard that the events of a run meet wherever they come. -/
theorem along_of_forall {s : σ} {es : List ε} (h : ∀ e ∈ es, ∀ s, P s e) : Along step P s es := by
  induction es generalizing s with
  | nil => trivial
  | cons e es ih =>
    exact ⟨h e List.mem_cons_self s, fun _ _ _ ↦ ih fun e' he' ↦ h e' (List.mem_cons_of_mem _ he')⟩

/-- A guard that every step of a run meets because of an invariant. -/
theorem along_of_invariant {I : σ → Prop} (hI : ∀ s e, I s → P s e → Q s e)
    (hstep : ∀ s e o s', I s → P s e → step s e = some (o, s') → I s')
    {s : σ} {es : List ε} (h₀ : I s) (hP : Along step P s es) : Along step Q s es := by
  induction es generalizing s with
  | nil => trivial
  | cons e es ih =>
    exact ⟨hI s e h₀ hP.1, fun o s' hs ↦ ih (hstep s e o s' h₀ hP.1 hs) (hP.2 o s' hs)⟩

/-- `I` holds in every state that the run comes through, the first and the last included. -/
def Always (step : σ → ε → Option (ω × σ)) (I : σ → Prop) : σ → List ε → Prop
  | s, [] => I s
  | s, e :: es => I s ∧ ∀ o s', step s e = some (o, s') → Always step I s' es

instance Always.decidable {I : σ → Prop} [∀ s, Decidable (I s)] :
    ∀ s es, Decidable (Always step I s es)
  | s, [] => inferInstanceAs (Decidable (I s))
  | s, e :: es =>
    match hs : step s e with
    | none => decidable_of_iff (I s) (by simp [Always, hs])
    | some (o, s') =>
      have := Always.decidable (I := I) s' es
      decidable_of_iff (I s ∧ Always step I s' es) (by simp [Always, hs])

theorem Always.head {I : σ → Prop} {s : σ} {es : List ε} (h : Always step I s es) : I s := by
  cases es with
  | nil => exact h
  | cons e es => exact h.1

theorem always_of_invariant {I K : σ → Prop} (hKI : ∀ s, K s → I s)
    (hstep : ∀ s e o s', K s → P s e → step s e = some (o, s') → K s')
    {s : σ} {es : List ε} (h₀ : K s) (hP : Along step P s es) : Always step I s es := by
  induction es generalizing s with
  | nil => exact hKI s h₀
  | cons e es ih =>
    exact ⟨hKI s h₀, fun o s' hs ↦ ih (hstep s e o s' h₀ hP.1 hs) (hP.2 o s' hs)⟩

/-- **Exact guards.**  Let `K` be an invariant under the guard, stronger than `I`, and such that a
step from it that does not meet the guard leads out of `I`.  Then `I` holds all along a run exactly
when every step of the run meets the guard.  `Q` is what is known of every step of the run. -/
theorem always_iff_along_of_along {I K : σ → Prop} (hKI : ∀ s, K s → I s)
    (hI : ∀ s e o s', K s → Q s e → step s e = some (o, s') → I s' → P s e)
    (hK : ∀ s e o s', K s → Q s e → P s e → step s e = some (o, s') → K s')
    (hnone : ∀ s e, K s → Q s e → step s e = none → P s e) {s : σ} {es : List ε} (h₀ : K s)
    (hQ : Along step Q s es) : Always step I s es ↔ Along step P s es := by
  induction es generalizing s with
  | nil => exact iff_of_true (hKI s h₀) trivial
  | cons e es ih =>
    rw [Always, Along, and_iff_right (hKI s h₀)]
    cases hs : step s e with
    | none => exact iff_of_true (fun _ _ h ↦ absurd h (by simp)) ⟨hnone s e h₀ hQ.1 hs, by simp⟩
    | some r =>
      obtain ⟨o, s'⟩ := r
      have hQ' : Along step Q s' es := hQ.2 o s' hs
      refine ⟨fun h ↦ ?_, fun ⟨hP, h⟩ o₁ s₁ heq ↦ ?_⟩
      · have hP : P s e := hI s e o s' h₀ hQ.1 hs (h o s' rfl).head
        refine ⟨hP, fun o₁ s₁ heq ↦ ?_⟩
        cases heq
        exact (ih (hK s e o s' h₀ hQ.1 hP hs) hQ').mp (h o s' rfl)
      · cases heq
        exact (ih (hK s e o s' h₀ hQ.1 hP hs) hQ').mpr (h o s' rfl)

/-- Exact guards, where nothing else is known of the steps. -/
theorem always_iff_along {I K : σ → Prop} (hKI : ∀ s, K s → I s)
    (hI : ∀ s e o s', K s → step s e = some (o, s') → I s' → P s e)
    (hK : ∀ s e o s', K s → P s e → step s e = some (o, s') → K s')
    (hnone : ∀ s e, K s → step s e = none → P s e) {s : σ} {es : List ε} (h₀ : K s) :
    Always step I s es ↔ Along step P s es :=
  always_iff_along_of_along (Q := fun _ _ ↦ True) hKI (fun s e o s' h _ ↦ hI s e o s' h)
    (fun s e o s' h _ ↦ hK s e o s' h) (fun s e h _ ↦ hnone s e h) h₀ along_true

/-! ## Simulation -/

/-- **Simulation.**  If related states answer every guarded event with the same output and related
states, every guarded run of the first machine is a run of the second with the same outputs. -/
theorem run_simulation {step' : τ → ε → Option (ω × τ)} {R : σ → τ → Prop}
    (hstep : ∀ s t e o s', R s t → P s e → step s e = some (o, s') →
      ∃ t', step' t e = some (o, t') ∧ R s' t')
    {s s' : σ} {t : τ} {es : List ε} {os : List ω} (h₀ : R s t) (hP : Along step P s es)
    (hr : run step s es = some (os, s')) :
    ∃ t', run step' t es = some (os, t') ∧ R s' t' := by
  induction es generalizing s t os with
  | nil =>
    simp only [run_nil, Option.some.injEq, Prod.mk.injEq] at hr
    obtain ⟨rfl, rfl⟩ := hr
    exact ⟨t, rfl, h₀⟩
  | cons e es ih =>
    obtain ⟨o, s₁, os', hs, hr', rfl⟩ := run_cons.mp hr
    obtain ⟨t₁, ht, hR⟩ := hstep s t e o s₁ h₀ hP.1 hs
    obtain ⟨t', hrt, hR'⟩ := ih hR (hP.2 o s₁ hs) hr'
    exact ⟨t', run_cons.mpr ⟨o, t₁, os', ht, hrt, rfl⟩, hR'⟩

/-- **Simulation with silent steps.**  A step of the first machine says nothing, and is none of the
second; or it says which step of the second it is, and with which output.  What a guarded run of the
first has said is then a run of the second, and one whose steps meet what is known of each. -/
theorem run_stuttering {ε' ω' : Type*} {step : σ → ε → Option (Option (ε' × ω') × σ)}
    {step' : τ → ε' → Option (ω' × τ)} {P : σ → ε → Prop} {Q : τ → ε' → Prop} {R : σ → τ → Prop}
    (hsilent : ∀ s t e s', R s t → P s e → step s e = some (none, s') → R s' t)
    (hspeak : ∀ s t e e' o' s', R s t → P s e → step s e = some (some (e', o'), s') →
      Q t e' ∧ ∃ t', step' t e' = some (o', t') ∧ R s' t')
    {s s' : σ} {t : τ} {es : List ε} {os : List (Option (ε' × ω'))} (h₀ : R s t)
    (hP : Along step P s es) (hr : run step s es = some (os, s')) :
    ∃ t', run step' t ((os.filterMap id).map Prod.fst) =
        some ((os.filterMap id).map Prod.snd, t') ∧
      Along step' Q t ((os.filterMap id).map Prod.fst) ∧ R s' t' := by
  induction es generalizing s t os with
  | nil =>
    simp only [run_nil, Option.some.injEq, Prod.mk.injEq] at hr
    obtain ⟨rfl, rfl⟩ := hr
    exact ⟨t, rfl, trivial, h₀⟩
  | cons e es ih =>
    obtain ⟨o, s₁, os', hs, hr', rfl⟩ := run_cons.mp hr
    cases o with
    | none =>
      rw [List.filterMap_cons_none rfl]
      exact ih (hsilent s t e s₁ h₀ hP.1 hs) (hP.2 none s₁ hs) hr'
    | some said =>
      obtain ⟨e', o'⟩ := said
      obtain ⟨hQ, t₁, ht, hR⟩ := hspeak s t e e' o' s₁ h₀ hP.1 hs
      obtain ⟨t', hrt, hQ', hR'⟩ := ih hR (hP.2 _ s₁ hs) hr'
      exact ⟨t', run_cons.mpr ⟨o', t₁, _, ht, hrt, rfl⟩, Along.cons hQ ht hQ', hR'⟩

end Machine
