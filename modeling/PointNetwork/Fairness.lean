import Mathlib.Data.Nat.Init
import Mathlib.Order.Basic
import Mathlib.Tactic.Common
import PointNetwork.Machine

/-!
# Endless runs of a machine

An `Execution` is a run that goes on for ever; at some times nothing may happen. A state that every
fair execution comes to is found with a rank and, for each state before it, an action that lowers
the rank, stays enabled until then, and happens at some time: `Execution.eventually`.
-/

namespace Machine

variable {σ ε : Type*} {step : σ → ε → Option σ} {ok : σ → ε → Prop} {s₀ : σ}

/-- A run from `s₀` without an end; no event is a time at which nothing happens. -/
structure Execution (step : σ → ε → Option σ) (ok : σ → ε → Prop) (s₀ : σ) where
  state : ℕ → σ
  event : ℕ → Option ε
  start : state 0 = s₀
  idle : ∀ n, event n = none → state (n + 1) = state n
  next : ∀ n e, event n = some e → ok (state n) e ∧ step (state n) e = some (state (n + 1))

namespace Execution

variable (x : Execution step ok s₀)

/-- All states of an execution are reachable. -/
theorem reach (n : ℕ) : Reach step ok s₀ (x.state n) := by
  induction n with
  | zero =>
    rw [x.start]
    exact .init
  | succ n ih =>
    rcases he : x.event n with _ | e
    · rw [x.idle n he]
      exact ih
    · exact ih.step (x.next n e he).1 (x.next n e he).2

/-- An action that is enabled for ever from some time on happens after this time. -/
def WeaklyFair (enabled : σ → Prop) (action : ε → Prop) : Prop :=
  ∀ n, (∀ m, n ≤ m → enabled (x.state m)) → ∃ m, n ≤ m ∧ ∃ e, x.event m = some e ∧ action e

/-- Before the goal some action is enabled; it stays so, at the same rank, until the rank falls, and
the action itself lowers the rank. -/
theorem eventually {ι : Type*} {enabled : ι → σ → Prop} {action : ι → ε → Prop} {P : σ → Prop}
    (rank : σ → ℕ) (hfair : ∀ i, x.WeaklyFair (enabled i) (action i))
    (henabled : ∀ s, Reach step ok s₀ s → ¬ P s → ∃ i, enabled i s)
    (hstep : ∀ s e s' i, Reach step ok s₀ s → ¬ P s → enabled i s → ok s e →
      step s e = some s' → rank s' < rank s ∨ rank s' = rank s ∧ enabled i s' ∧ ¬ action i e) :
    ∃ n, P (x.state n) := by
  by_contra hnever
  have hnot : ∀ n, ¬ P (x.state n) := fun n hP => hnever ⟨n, hP⟩
  -- the rank falls again and again
  have hfalls : ∀ n, ∃ m, rank (x.state m) < rank (x.state n) := by
    intro n
    by_contra hconst
    have hge : ∀ m, rank (x.state n) ≤ rank (x.state m) := fun m =>
      Nat.le_of_not_lt fun hlt => hconst ⟨m, hlt⟩
    rcases henabled _ (x.reach n) (hnot n) with ⟨i, hi⟩
    have hstay : ∀ m, n ≤ m → rank (x.state m) = rank (x.state n) ∧ enabled i (x.state m) := by
      intro m hm
      induction m, hm using Nat.le_induction with
      | base => exact ⟨rfl, hi⟩
      | succ m _ ih =>
        rcases he : x.event m with _ | e
        · rw [x.idle m he]
          exact ih
        · rcases hstep _ e _ i (x.reach m) (hnot m) ih.2 (x.next m e he).1 (x.next m e he).2 with
            hlt | ⟨heq, hen, _⟩
          · have := hge (m + 1)
            omega
          · exact ⟨heq.trans ih.1, hen⟩
    rcases hfair i n (fun m hm => (hstay m hm).2) with ⟨m, hm, e, he, haction⟩
    rcases hstep _ e _ i (x.reach m) (hnot m) (hstay m hm).2 (x.next m e he).1 (x.next m e he).2 with
      hlt | ⟨_, _, hno⟩
    · have := hge (m + 1)
      have := (hstay m hm).1
      omega
    · exact hno haction
  -- which a number cannot do
  have hrank : ∀ r n, rank (x.state n) = r → False := by
    intro r
    induction r using Nat.strong_induction_on with
    | _ r ih =>
      intro n hn
      rcases hfalls n with ⟨m, hm⟩
      exact ih _ (hn ▸ hm) m rfl
  exact hrank _ 0 rfl

end Execution

end Machine
