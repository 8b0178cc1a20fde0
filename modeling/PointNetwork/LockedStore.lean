import PointNetwork.Machine

/-!
# A store behind a lock

Several parties share a store and a lock. The holder of the lock reads the store, computes, and
writes it back or leaves it; `look` is what a reader makes of the content. Others may replace the
content without the lock, whenever the environment lets them.

* `Current`: the holder's view is what the content shows. It holds in every state when nobody
  replaces the content under a lock (`current_of_reach`);
* `Section`: a transaction as one step on the content;
* `serial_of_reach`: whatever the interleaving, the content is the result of sections that ran
  one after the other, and `content_invariant` is the rule that follows.
-/

namespace LockedStore

open Machine

/-- The content, the holder of its lock and what the holder has read. -/
structure State (ι σ ν : Type*) where
  content : σ
  lock : Option ι
  /-- What the holder of the lock has read. -/
  view : Option ν

/-- What holders do, and `replace`, which heeds no lock. -/
inductive Event (ι σ : Type*)
  | acquire (i : ι)
  | read
  | commit (content : σ)
  | release
  | replace (content : σ)

variable {ι σ ν : Type*} (look : σ → ν)

/-- A lock is acquired when it is free; what is committed goes with a view that has been read. -/
def step (s : State ι σ ν) : Event ι σ → Option (State ι σ ν)
  | .acquire i => if s.lock.isNone then some { s with lock := some i, view := none } else none
  | .read => if s.lock.isSome then some { s with view := some (look s.content) } else none
  | .commit content =>
    if s.lock.isSome && s.view.isSome then some ⟨content, none, none⟩ else none
  | .release => if s.lock.isSome then some { s with lock := none, view := none } else none
  | .replace content => some { s with content }

variable (tx : ν → σ → σ → Prop) (env : σ → σ → Prop)

/-- A commit is a transaction on what was read; replacements wait for the lock to be free. -/
def Ok (s : State ι σ ν) : Event ι σ → Prop
  | .commit content => ∃ v, s.view = some v ∧ tx v s.content content
  | .replace content => s.lock = none ∧ env s.content content
  | _ => True

/-- The view of the holder is what the content shows; without a holder there is no view. -/
structure Current (s : State ι σ ν) : Prop where
  look_eq : ∀ v, s.view = some v → look s.content = v
  locked : s.view.isSome → s.lock.isSome

/-- A transaction, or a replacement, in one step. -/
def Section (c c' : σ) : Prop := tx (look c) c c' ∨ env c c'

variable {look tx env} {s s' s₀ : State ι σ ν} {e : Event ι σ}

/-- No step makes the view of the holder outdated. -/
lemma Current.step (hc : Current look s) (hok : Ok tx env s e)
    (h : step look s e = some s') : Current look s' := by
  cases e with
  | acquire i =>
    obtain ⟨-, heq⟩ := Option.ite_none_right_eq_some.mp h
    cases heq
    exact ⟨by simp, by simp⟩
  | read =>
    obtain ⟨hlock, heq⟩ := Option.ite_none_right_eq_some.mp h
    cases heq
    exact ⟨fun v hv => Option.some.inj hv, fun _ => hlock⟩
  | commit content =>
    obtain ⟨-, heq⟩ := Option.ite_none_right_eq_some.mp h
    cases heq
    exact ⟨by simp, by simp⟩
  | release =>
    obtain ⟨-, heq⟩ := Option.ite_none_right_eq_some.mp h
    cases heq
    exact ⟨by simp, by simp⟩
  | replace content =>
    cases h
    -- without a lock there is no view that could become stale
    have hview : s.view = none := by
      cases hv : s.view with
      | none => rfl
      | some v =>
        have hlock := hc.locked (by simp [hv])
        rw [hok.1] at hlock
        cases hlock
    exact ⟨fun v hv => absurd (hview.symm.trans hv) (by simp), hc.locked⟩

/-- Outside a commit and a replacement the content stays; these two are sections. -/
lemma content_step (hc : Current look s) (hok : Ok tx env s e) (h : step look s e = some s') :
    s'.content = s.content ∨ Section look tx env s.content s'.content := by
  cases e with
  | acquire i =>
    obtain ⟨-, heq⟩ := Option.ite_none_right_eq_some.mp h
    cases heq
    exact .inl rfl
  | read =>
    obtain ⟨-, heq⟩ := Option.ite_none_right_eq_some.mp h
    cases heq
    exact .inl rfl
  | commit content =>
    obtain ⟨-, heq⟩ := Option.ite_none_right_eq_some.mp h
    cases heq
    obtain ⟨v, hv, htx⟩ := hok
    refine .inr (.inl ?_)
    rw [hc.look_eq v hv]
    exact htx
  | release =>
    obtain ⟨-, heq⟩ := Option.ite_none_right_eq_some.mp h
    cases heq
    exact .inl rfl
  | replace content =>
    cases h
    exact .inr (.inr hok.2)

/-- In every reachable state the view of the holder is that of the content. -/
theorem current_of_reach (h0 : Current look s₀) (h : Reach (step look) (Ok tx env) s₀ s) :
    Current look s :=
  h.invariant h0 fun _ _ _ hc hok hs => hc.step hok hs

/-- The content is the result of sections that ran one after the other. -/
theorem serial_of_reach (h0 : Current look s₀) (h : Reach (step look) (Ok tx env) s₀ s) :
    Relation.ReflTransGen (Section look tx env) s₀.content s.content := by
  induction h with
  | init => exact .refl
  | step hr hok hs ih =>
    rcases content_step (current_of_reach h0 hr) hok hs with heq | hsec
    · rw [heq]
      exact ih
    · exact ih.tail hsec

/-- What every section keeps holds of the content all along. -/
theorem content_invariant {P : σ → Prop} (h0 : Current look s₀) (hP : P s₀.content)
    (hsec : ∀ c c', P c → Section look tx env c c' → P c')
    (h : Reach (step look) (Ok tx env) s₀ s) : P s.content := by
  have hrun : ∀ c, Relation.ReflTransGen (Section look tx env) s₀.content c → P c := by
    intro c hc
    induction hc with
    | refl => exact hP
    | tail _ hstep ih => exact hsec _ _ ih hstep
  exact hrun _ (serial_of_reach h0 h)

end LockedStore
