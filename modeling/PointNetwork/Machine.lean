import Mathlib.Logic.Relation

/-!
# Machines driven by events

A machine is a partial step function `step : σ → ε → Option σ`: the event `e` can happen in
the state `s` when `step s e` is a state. Runs may be restricted to steps that meet a
condition `ok`.

* `Reach`: the states of all runs, with the induction rules `Reach.invariant` and
  `Reach.invariant_of_reach`;
* `run`: a run on a given list of events, `Reach.of_run` and `Reach.of_guarded` make it one of the above.
-/

namespace Machine

variable {σ ε : Type*} {step : σ → ε → Option σ} {ok ok' : σ → ε → Prop} {s₀ s s' : σ}

/-- The states of the runs from `s₀` all of whose steps meet `ok`. -/
inductive Reach (step : σ → ε → Option σ) (ok : σ → ε → Prop) (s₀ : σ) : σ → Prop
  | init : Reach step ok s₀ s₀
  | step {s s' : σ} {e : ε} : Reach step ok s₀ s → ok s e → step s e = some s' →
      Reach step ok s₀ s'

/-- Every step of a run is allowed. -/
def Any : σ → ε → Prop := fun _ _ => True

instance (s : σ) (e : ε) : Decidable (Any s e) := isTrue trivial

/-- What holds at the start and is kept by every step holds all along. -/
theorem Reach.invariant {P : σ → Prop} (h0 : P s₀)
    (hstep : ∀ s e s', P s → ok s e → step s e = some s' → P s')
    (h : Reach step ok s₀ s) : P s := by
  induction h with
  | init => exact h0
  | step _ hok hs ih => exact hstep _ _ _ ih hok hs

/-- An invariant whose step may use that the state is reachable. -/
theorem Reach.invariant_of_reach {P : σ → Prop} (h0 : P s₀)
    (hstep : ∀ s e s', Reach step ok s₀ s → P s → ok s e → step s e = some s' → P s')
    (h : Reach step ok s₀ s) : P s := by
  have hboth : Reach step ok s₀ s ∧ P s :=
    h.invariant (P := fun s => Reach step ok s₀ s ∧ P s) ⟨.init, h0⟩
      fun s e s' ⟨hr, hp⟩ hok hs => ⟨hr.step hok hs, hstep s e s' hr hp hok hs⟩
  exact hboth.2

/-- Runs can be put together. -/
theorem Reach.trans (h : Reach step ok s₀ s) (h' : Reach step ok s s') :
    Reach step ok s₀ s' := by
  induction h' with
  | init => exact h
  | step _ hok hs ih => exact ih.step hok hs

/-- A run under a condition is one under a weaker condition. -/
theorem Reach.mono (hok : ∀ s e, ok s e → ok' s e) (h : Reach step ok s₀ s) :
    Reach step ok' s₀ s := by
  induction h with
  | init => exact .init
  | step _ h1 hs ih => exact ih.step (hok _ _ h1) hs

/-- The run on a list of events; it stops at an event that cannot happen. -/
def run (step : σ → ε → Option σ) : σ → List ε → Option σ
  | s, [] => some s
  | s, e :: es => (step s e).bind fun s' => run step s' es

/-- The step function of the runs all of whose steps meet a decidable condition. -/
def guarded (step : σ → ε → Option σ) (ok : σ → ε → Prop) [∀ s e, Decidable (ok s e)]
    (s : σ) (e : ε) : Option σ :=
  if ok s e then step s e else none

/-- A run on a list of events whose steps meet the condition. -/
theorem Reach.of_guarded [∀ s e, Decidable (ok s e)] (es : List ε)
    (h : run (guarded step ok) s es = some s') : Reach step ok s s' := by
  induction es generalizing s with
  | nil =>
    cases h
    exact .init
  | cons e es ih =>
    obtain ⟨t, ht, hrest⟩ := Option.bind_eq_some_iff.mp h
    unfold guarded at ht
    by_cases hok : ok s e
    · rw [if_pos hok] at ht
      exact (Reach.init.step hok ht).trans (ih hrest)
    · rw [if_neg hok] at ht
      cases ht

/-- The state after a list of events. -/
def after (step : σ → ε → Option σ) (s : σ) (es : List ε) : σ := (run step s es).getD s

/-- The state after a list of events that can happen in turn, each meeting the condition. -/
theorem Reach.of_after [∀ s e, Decidable (ok s e)] (es : List ε)
    (h : (run (guarded step ok) s es).isSome) : Reach step ok s (after (guarded step ok) s es) := by
  obtain ⟨t, ht⟩ := Option.isSome_iff_exists.mp h
  unfold after
  rw [ht]
  exact .of_guarded es ht

/-- A run on a list of events. -/
theorem Reach.of_run (es : List ε) (h : run step s es = some s') : Reach step Any s s' := by
  induction es generalizing s with
  | nil =>
    cases h
    exact .init
  | cons e es ih =>
    obtain ⟨t, ht, hrest⟩ := Option.bind_eq_some_iff.mp h
    exact (Reach.init.step trivial ht).trans (ih hrest)

end Machine
