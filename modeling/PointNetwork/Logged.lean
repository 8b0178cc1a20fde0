import Mathlib.Tactic.Common

/-!
# Computations that log what they write

A `Logged` computation draws from a seed of type `σ`, may fail with an `ε`, and logs values of
type `ω`: what it hands to a store. Assumptions about the store then need to speak of the logged
values only.

* `Agree good m r R`: on every seed, if all that `m` logs is good, then `m` and the pure result
  `r` fail alike, or succeed with related values;
* `Agree.bind` and its companions follow the structure of the computation;
* `Yields` and `Fails`: how a run ends, with their rules for sequences and loops;
* `Only P m`: all that `m` logs on any seed meets `P`; `exists_log_bind`: what a sequence logs;
* `Until P pre m`: `pre` is what `m` does before the first value that meets `P` is logged;
* `Gives inv m Q`: an invariant of the seed that `m` keeps, and what it makes sure of.
-/

/-- A computation with a seed, failures and a log. -/
def Logged (σ ω ε α : Type) : Type := σ → Except ε α × List ω × σ

namespace Logged

variable {σ ω ε α β γ δ : Type}

/-- The log of a run. -/
def log (m : Logged σ ω ε α) (s : σ) : List ω := (m s).2.1

instance : Monad (Logged σ ω ε) where
  pure a := fun s => (.ok a, [], s)
  bind m f := fun s =>
    match m s with
    | (.error e, w, s') => (.error e, w, s')
    | (.ok a, w, s') =>
      let (r, w', s'') := f a s'
      (r, w ++ w', s'')

/-- Fails. -/
def fail (e : ε) : Logged σ ω ε α := fun s => (.error e, [], s)

/-- A pure result. -/
def ofExcept : Except ε α → Logged σ ω ε α
  | .ok a => pure a
  | .error e => fail e

/-- Logs a value. -/
def tell (w : ω) : Logged σ ω ε Unit := fun s => (.ok (), [w], s)

/-- Draws from the seed. -/
def draw (f : σ → α × σ) : Logged σ ω ε α := fun s => (.ok (f s).1, [], (f s).2)

/-- Two results agree: the same failure, or related values. -/
def Related (R : α → β → Prop) : Except ε α → Except ε β → Prop
  | .ok a, .ok b => R a b
  | .error e, .error e' => e = e'
  | _, _ => False

/-- `m` agrees with the pure result `r` when all that it logs is good. -/
def Agree (good : ω → Prop) (m : Logged σ ω ε α) (r : Except ε β) (R : α → β → Prop) : Prop :=
  ∀ s, (∀ w ∈ m.log s, good w) → Related R (m s).1 r

variable {good : ω → Prop} {m : Logged σ ω ε α} {r : Except ε β} {R R' : α → β → Prop}

lemma Agree.pure {a : α} {b : β} (h : R a b) :
    Agree good (pure a : Logged σ ω ε α) (.ok b) R := fun _ _ => h

lemma Agree.fail (e : ε) : Agree good (fail e : Logged σ ω ε α) (.error e) R := fun _ _ => rfl

/-- A value agrees with a result that it is related to. -/
lemma Agree.ofExcept {x : Except ε α} (h : Related R x r) :
    Agree good (ofExcept x : Logged σ ω ε α) r R := by
  intro s _
  cases x with
  | ok a => exact h
  | error e => exact h

/-- A weaker relation follows. -/
lemma Agree.mono (h : Agree good m r R) (hR : ∀ a b, R a b → R' a b) : Agree good m r R' := by
  intro s hs
  have hrel := h s hs
  revert hrel
  generalize (m s).1 = x
  intro hrel
  cases x with
  | ok a =>
    cases r with
    | ok b => exact hR a b hrel
    | error e => exact hrel
  | error e =>
    cases r with
    | ok b => exact hrel
    | error e' => exact hrel

/-- An error is passed on, and nothing follows it. -/
lemma bind_of_error {f : α → Logged σ ω ε γ} {s s' : σ} {e : ε} {w : List ω}
    (h : m s = (.error e, w, s')) : (m >>= f) s = (.error e, w, s') := by
  simp only [Bind.bind, h]

/-- The second computation runs in the state of the first, and its log follows. -/
lemma bind_of_ok {f : α → Logged σ ω ε γ} {s s' : σ} {a : α} {w : List ω}
    (h : m s = (.ok a, w, s')) :
    (m >>= f) s = ((f a s').1, w ++ (f a).log s', (f a s').2.2) := by
  simp only [Bind.bind, h, log]

/-- Agreement of a sequence, the second half under what the first one establishes. -/
lemma Agree.bind {f : α → Logged σ ω ε γ} {g : β → Except ε δ} {R' : γ → δ → Prop}
    (hm : Agree good m r R) (hf : ∀ a b, R a b → Agree good (f a) (g b) R') :
    Agree good (m >>= f) (r >>= g) R' := by
  intro s hs
  have hrel := hm s
  unfold log at hs hrel
  rcases hrun : m s with ⟨e | a, w, s'⟩
  · rw [bind_of_error hrun] at hs ⊢
    rw [hrun] at hrel
    have hrel := hrel hs
    cases r with
    | ok b => exact hrel.elim
    | error e' => exact hrel
  · rw [bind_of_ok hrun] at hs ⊢
    rw [hrun] at hrel
    have hrel := hrel fun v hv => hs v (List.mem_append_left _ hv)
    cases r with
    | error e' => exact hrel.elim
    | ok b => exact hf a b hrel s' fun v hv => hs v (List.mem_append_right _ hv)

lemma pure_bind_eq (a : α) (f : α → Logged σ ω ε γ) : (pure a >>= f) = f a := by
  funext s
  rw [bind_of_ok (show (pure a : Logged σ ω ε α) s = (.ok a, [], s) from rfl)]
  simp [log]

/-- Both sides start with the same pure computation. -/
lemma Agree.ofExcept_bind {x : Except ε α} {f : α → Logged σ ω ε γ} {g : α → Except ε δ}
    {R' : γ → δ → Prop} (h : ∀ a, x = .ok a → Agree good (f a) (g a) R') :
    Agree good (Logged.ofExcept x >>= f) (x >>= g) R' := by
  cases x with
  | error e =>
    have hfail : Agree good (Logged.fail e : Logged σ ω ε α) (.error e : Except ε α)
      fun _ _ => False := .fail e
    exact hfail.bind fun _ _ hfalse => hfalse.elim
  | ok a =>
    show Agree good (Pure.pure a >>= f) (g a) R'
    rw [pure_bind_eq]
    exact h a rfl

/-- A pure computation that is known to succeed. -/
lemma ofExcept_bind_eq {x : Except ε α} {a : α} (h : x = .ok a) (f : α → Logged σ ω ε γ) :
    (Logged.ofExcept x >>= f) = f a := by
  rw [h]
  exact pure_bind_eq a f

/-- A computation that only succeeds is followed by one that agrees. -/
lemma Agree.seq {f : α → Logged σ ω ε γ} {r : Except ε δ} {R' : γ → δ → Prop} {P : α → Prop}
    (hm : Agree good m (.ok ()) fun a _ => P a) (hf : ∀ a, P a → Agree good (f a) r R') :
    Agree good (m >>= f) r R' :=
  hm.bind (g := fun _ => r) fun a _ ha => hf a ha

/-- A computation that only succeeds agrees with any result related to what it gives. -/
lemma Agree.known {P : α → Prop} {b : β} (hm : Agree good m (.ok ()) fun a _ => P a)
    (h : ∀ a, P a → R a b) : Agree good m (.ok b) R := by
  intro s hs
  have hrel := hm s hs
  cases hx : (m s).1 with
  | error e =>
    rw [hx] at hrel
    exact hrel.elim
  | ok a =>
    rw [hx] at hrel
    exact h a hrel

/-- A logged value is good. -/
lemma Agree.tell (w : ω) : Agree good (tell w : Logged σ ω ε Unit) (.ok ()) fun _ _ => good w :=
  fun _ hs => hs w (List.mem_singleton_self w)

lemma Agree.draw {f : σ → α × σ} {P : α → Prop} (h : ∀ s, P (f s).1) :
    Agree good (draw f : Logged σ ω ε α) (.ok ()) fun a _ => P a := fun s _ => h s

/-- What agreement says of a run. -/
lemma Agree.run_ok (h : Agree good m r R) {s : σ} (hs : ∀ w ∈ m.log s, good w) {a : α}
    (ha : (m s).1 = .ok a) : ∃ b, r = .ok b ∧ R a b := by
  have hrel := h s hs
  rw [ha] at hrel
  cases r with
  | ok b => exact ⟨b, rfl, hrel⟩
  | error e => exact hrel.elim

/-- A run whose entries are good returns a related value. -/
lemma Agree.run_of_ok (h : Agree good m r R) {s : σ} (hs : ∀ w ∈ m.log s, good w) {b : β}
    (hb : r = .ok b) : ∃ a, (m s).1 = .ok a ∧ R a b := by
  have hrel := h s hs
  rw [hb] at hrel
  cases ha : (m s).1 with
  | ok a => exact ⟨a, rfl, by rw [ha] at hrel; exact hrel⟩
  | error e =>
    rw [ha] at hrel
    exact hrel.elim

/-! ## How a run ends, and what it logs -/

/-- The outcome of a computation whose failure does not end the run. -/
def attempt {ε' : Type} (m : Logged σ ω ε α) : Logged σ ω ε' (Except ε α) :=
  fun s => (.ok (m s).1, (m s).2.1, (m s).2.2)

/-- After a failure the run goes on with another computation. -/
def recover (m : Logged σ ω ε α) (handler : Logged σ ω ε α) : Logged σ ω ε α := fun s =>
  match m s with
  | (.ok a, w, s') => (.ok a, w, s')
  | (.error _, w, s') => ((handler s').1, w ++ (handler s').2.1, (handler s').2.2)

/-- The computation returns this value and ends in this state. -/
def Yields (m : Logged σ ω ε α) (s : σ) (a : α) (s' : σ) : Prop := ∃ w, m s = (.ok a, w, s')

/-- The computation throws. -/
def Fails (m : Logged σ ω ε α) (s : σ) : Prop := ∃ e, (m s).1 = .error e

/-- On every seed the computation succeeds with this value. -/
def Returns (m : Logged σ ω ε α) (a : α) : Prop := ∀ s, ∃ s', Yields m s a s'

/-- Each run returns or throws. -/
theorem yields_or_fails (m : Logged σ ω ε α) (s : σ) : (∃ a s', Yields m s a s') ∨ Fails m s := by
  unfold Yields Fails
  rcases m s with ⟨e | a, w, s'⟩
  · exact .inr ⟨e, rfl⟩
  · exact .inl ⟨a, s', w, rfl⟩

/-- A run that returns does not throw. -/
theorem Yields.not_fails {a : α} {s s' : σ} (h : Yields m s a s') : ¬Fails m s := by
  obtain ⟨w, h⟩ := h
  rintro ⟨e, he⟩
  rw [h] at he
  cases he

/-- A run returns one value. -/
theorem Yields.unique {a a' : α} {s s' s'' : σ} (h : Yields m s a s') (h' : Yields m s a' s'') :
    a = a' ∧ s' = s'' := by
  obtain ⟨w, h⟩ := h
  obtain ⟨w', h'⟩ := h'
  rw [h] at h'
  cases h'
  exact ⟨rfl, rfl⟩

/-- A sequence throws when its first or its second part does. -/
theorem fails_bind {f : α → Logged σ ω ε γ} {s : σ} :
    Fails (m >>= f) s ↔ Fails m s ∨ ∃ a s', Yields m s a s' ∧ Fails (f a) s' := by
  unfold Fails Yields
  rcases hm : m s with ⟨e | a, w, s'⟩
  · rw [bind_of_error hm]
    simp
  · rw [bind_of_ok hm]
    simp

/-- A sequence returns when both parts do. -/
theorem yields_bind {f : α → Logged σ ω ε γ} {s s'' : σ} {c : γ} :
    Yields (m >>= f) s c s'' ↔ ∃ a s', Yields m s a s' ∧ Yields (f a) s' c s'' := by
  unfold Yields
  rcases hm : m s with ⟨e | a, w, s'⟩
  · rw [bind_of_error hm]
    simp
  · rw [bind_of_ok hm]
    constructor
    · rintro ⟨w', h⟩
      obtain ⟨hresult, hrest⟩ := Prod.mk.inj h
      refine ⟨a, s', ⟨w, rfl⟩, (f a).log s', ?_⟩
      exact Prod.ext hresult (Prod.ext rfl (Prod.mk.inj hrest).2)
    · rintro ⟨_, _, ⟨_, heq⟩, w', h⟩
      cases heq
      refine ⟨w ++ w', ?_⟩
      unfold log
      rw [h]

lemma yields_pure {a b : α} {s s' : σ} :
    Yields (Pure.pure a : Logged σ ω ε α) s b s' ↔ b = a ∧ s' = s := by
  constructor
  · rintro ⟨w, h⟩
    cases h
    exact ⟨rfl, rfl⟩
  · rintro ⟨rfl, rfl⟩
    exact ⟨[], rfl⟩

lemma Returns.pure (a : α) : Returns (pure a : Logged σ ω ε α) a := fun s => ⟨s, [], rfl⟩

lemma Returns.ofExcept {x : Except ε α} {a : α} (h : x = .ok a) :
    Returns (ofExcept x : Logged σ ω ε α) a := by
  rw [h]
  exact .pure a

/-- A sequence of what always returns. -/
lemma Returns.bind {f : α → Logged σ ω ε γ} {a : α} {c : γ} (hm : Returns m a)
    (hf : Returns (f a) c) : Returns (m >>= f) c := by
  intro s
  rcases hm s with ⟨s', hyields⟩
  rcases hf s' with ⟨s'', hyields'⟩
  exact ⟨s'', yields_bind.mpr ⟨a, s', hyields, hyields'⟩⟩

/-- A run behind a pure computation. -/
lemma yields_ofExcept_bind {x : Except ε α} {f : α → Logged σ ω ε γ} {s s' : σ} {c : γ} :
    Yields (ofExcept x >>= f) s c s' ↔ ∃ a, x = .ok a ∧ Yields (f a) s c s' := by
  cases x with
  | error e =>
    constructor
    · rintro ⟨w, h⟩
      cases h
    · rintro ⟨a, h, -⟩
      cases h
  | ok a =>
    rw [ofExcept_bind_eq rfl]
    exact ⟨fun h => ⟨a, rfl, h⟩, fun ⟨_, h, hrun⟩ => Except.ok.inj h ▸ hrun⟩

/-- A sequence logs what its first half logs, and, if this succeeds, what the second half does. -/
theorem exists_log_bind {P : ω → Prop} {f : α → Logged σ ω ε γ} {s : σ} :
    (∃ w ∈ (m >>= f).log s, P w) ↔
      (∃ w ∈ m.log s, P w) ∨ ∃ a s', Yields m s a s' ∧ ∃ w ∈ (f a).log s', P w := by
  unfold Yields
  rcases hm : m s with ⟨e | a, w, s'⟩
  · have hlog : (m >>= f).log s = m.log s := by
      unfold log
      rw [bind_of_error hm, hm]
    rw [hlog]
    simp
  · have hlog : (m >>= f).log s = m.log s ++ (f a).log s' := by
      unfold log
      rw [bind_of_ok hm, hm]
      rfl
    rw [hlog]
    constructor
    · rintro ⟨v, hv, hP⟩
      obtain hv | hv := List.mem_append.mp hv
      · exact .inl ⟨v, hv, hP⟩
      · exact .inr ⟨a, s', ⟨w, rfl⟩, v, hv, hP⟩
    · rintro (⟨v, hv, hP⟩ | ⟨_, _, ⟨_, heq⟩, v, hv, hP⟩)
      · exact ⟨v, List.mem_append_left _ hv, hP⟩
      · cases heq
        exact ⟨v, List.mem_append_right _ hv, hP⟩

/-- The log of a sequence. -/
theorem log_bind {f : α → Logged σ ω ε γ} {s s' : σ} {a : α} (h : Yields m s a s') :
    (m >>= f).log s = m.log s ++ (f a).log s' := by
  obtain ⟨w, h⟩ := h
  unfold log
  rw [bind_of_ok h, h]
  rfl

instance : LawfulMonad (Logged σ ω ε) := by
  refine LawfulMonad.mk' (Logged σ ω ε) ?_ ?_ ?_
  · intro α m
    funext s
    show (m >>= Pure.pure) s = m s
    rcases hm : m s with ⟨e | a, w, s'⟩
    · rw [bind_of_error hm]
    · rw [bind_of_ok hm]
      exact congrArg (Prod.mk _) (congrArg (fun v => (v, s')) (List.append_nil w))
  · intro α β a f
    exact pure_bind_eq a f
  · intro α β γ m f g
    funext s
    rcases hm : m s with ⟨e | a, w, s'⟩
    · rw [bind_of_error hm, bind_of_error (bind_of_error hm)]
    · rw [bind_of_ok hm]
      rcases hf : f a s' with ⟨e | b, w', s''⟩
      · have hmf : (m >>= f) s = (.error e, w ++ w', s'') := by
          rw [bind_of_ok hm, log, hf]
        unfold log
        rw [bind_of_error hmf, bind_of_error hf]
      · have hmf : (m >>= f) s = (.ok b, w ++ w', s'') := by
          rw [bind_of_ok hm, log, hf]
        rw [bind_of_ok hmf, bind_of_ok hf]
        unfold log
        rw [bind_of_ok hf, List.append_assoc]
        rfl

/-- All that the computation logs on any seed. -/
def Only (P : ω → Prop) (m : Logged σ ω ε α) : Prop := ∀ s, ∀ w ∈ m.log s, P w

namespace Only

variable {P Q : ω → Prop}

/-- A weaker property follows. -/
theorem mono (h : Only P m) (hPQ : ∀ w, P w → Q w) : Only Q m := fun s w hw => hPQ w (h s w hw)

theorem pure (a : α) : Only P (pure a : Logged σ ω ε α) := fun _ _ hw => (List.not_mem_nil hw).elim

theorem fail (e : ε) : Only P (fail e : Logged σ ω ε α) := fun _ _ hw => (List.not_mem_nil hw).elim

theorem ofExcept (x : Except ε α) : Only P (ofExcept x : Logged σ ω ε α) := by
  cases x with
  | ok a => exact .pure a
  | error e => exact .fail e

theorem tell {w : ω} (h : P w) : Only P (tell w : Logged σ ω ε Unit) :=
  fun _ _ hw => List.mem_singleton.mp hw ▸ h

/-- Both parts of a sequence have such entries only. -/
theorem bind {f : α → Logged σ ω ε γ} (hm : Only P m) (hf : ∀ a, Only P (f a)) :
    Only P (m >>= f) := by
  intro s w hw
  obtain ⟨w', hw', heq⟩ | ⟨a, s', -, w', hw', heq⟩ :=
    (exists_log_bind (P := fun w' => w' = w)).mp ⟨w, hw, rfl⟩
  · exact heq ▸ hm s w' hw'
  · exact heq ▸ hf a s' w' hw'

/-- An error that is caught changes nothing of the log. -/
theorem attempt {ε' : Type} (hm : Only P m) : Only P (attempt m : Logged σ ω ε' _) := hm

/-- Neither the computation nor its handler has others. -/
theorem recover {handler : Logged σ ω ε α} (hm : Only P m) (hh : Only P handler) :
    Only P (recover m handler) := by
  intro s w hw
  unfold log Logged.recover at hw
  rcases hrun : m s with ⟨e | a, v, s'⟩
  · rw [hrun] at hw
    obtain hw | hw := List.mem_append.mp hw
    · exact hm s w (by unfold log; rw [hrun]; exact hw)
    · exact hh s' w hw
  · rw [hrun] at hw
    exact hm s w (by unfold log; rw [hrun]; exact hw)

end Only

/-- If `pre` fails, `m` fails without logging a value that meets `P`; else `m` logs one. -/
def Until {α β : Type} (P : ω → Prop) (pre : Logged σ ω ε α) (m : Logged σ ω ε β) : Prop :=
  ∀ s, (Fails pre s → Fails m s ∧ ∀ w ∈ m.log s, ¬P w) ∧
    (∀ a s', Yields pre s a s' → ∃ w ∈ m.log s, P w)

namespace Until

variable {P : ω → Prop} {pre : Logged σ ω ε β}

/-- What follows changes nothing. -/
theorem append (h : Until P pre m) (f : α → Logged σ ω ε γ) : Until P pre (m >>= f) := by
  intro s
  obtain ⟨hfails, hlogs⟩ := h s
  constructor
  · intro hpre
    obtain ⟨hm, hnone⟩ := hfails hpre
    refine ⟨fails_bind.mpr (.inl hm), ?_⟩
    intro w hw hP
    obtain ⟨w', hw', hP'⟩ | ⟨a, s', hyields, -⟩ := exists_log_bind.mp ⟨w, hw, hP⟩
    · exact hnone w' hw' hP'
    · exact hyields.not_fails hm
  · intro b s' hpre
    exact exists_log_bind.mpr (.inl (hlogs b s' hpre))

/-- A first half that logs no such value. -/
theorem bind {f : α → Logged σ ω ε γ} {g : α → Logged σ ω ε δ} (hm : Only (fun w => ¬P w) m)
    (h : ∀ a, Until P (g a) (f a)) : Until P (m >>= g) (m >>= f) := by
  intro s
  constructor
  · intro hpre
    have hnone : Fails (m >>= f) s ∧ ¬∃ w ∈ (m >>= f).log s, P w := by
      rw [fails_bind, exists_log_bind]
      obtain hfails | ⟨a, s', hyields, hfails⟩ := fails_bind.mp hpre
      · refine ⟨.inl hfails, ?_⟩
        rintro (⟨w, hw, hP⟩ | ⟨a, s', hyields, -⟩)
        · exact hm s w hw hP
        · exact hyields.not_fails hfails
      · obtain ⟨hf, hnone⟩ := (h a s').1 hfails
        refine ⟨.inr ⟨a, s', hyields, hf⟩, ?_⟩
        rintro (⟨w, hw, hP⟩ | ⟨a', t, hyields', w, hw, hP⟩)
        · exact hm s w hw hP
        · obtain ⟨rfl, rfl⟩ := hyields.unique hyields'
          exact hnone w hw hP
    exact ⟨hnone.1, fun w hw hP => hnone.2 ⟨w, hw, hP⟩⟩
  · intro b s'' hpre
    obtain ⟨a, s', hyields, hrest⟩ := yields_bind.mp hpre
    exact exists_log_bind.mpr (.inr ⟨a, s', hyields, (h a s').2 b s'' hrest⟩)

/-- The first value is logged at once. -/
theorem now {b : β} (h : ∀ s, ∃ w ∈ m.log s, P w) :
    Until P (Pure.pure b : Logged σ ω ε β) m := by
  intro s
  constructor
  · rintro ⟨e, he⟩
    cases he
  · exact fun _ _ _ => h s

end Until

/-! ## Outcomes under an invariant -/

/-- From every seed with the invariant, the result and the log of `m` meet `Q`, and the invariant is
kept. -/
def Gives (inv : σ → Prop) (m : Logged σ ω ε α) (Q : Except ε α → List ω → Prop) : Prop :=
  ∀ s, inv s → Q (m s).1 (m.log s) ∧ inv (m s).2.2

/-- Any outcome at all. -/
def Keeps (inv : σ → Prop) (m : Logged σ ω ε α) : Prop := Gives inv m fun _ _ => True

namespace Gives

variable {inv : σ → Prop} {Q Q' : Except ε α → List ω → Prop}

theorem mono (h : Gives inv m Q) (hQ : ∀ r w, Q r w → Q' r w) : Gives inv m Q' :=
  fun s hs => ⟨hQ _ _ (h s hs).1, (h s hs).2⟩

theorem keeps (h : Gives inv m Q) : Keeps inv m := h.mono fun _ _ _ => trivial

theorem pure {a : α} (h : Q (.ok a) []) : Gives inv (pure a : Logged σ ω ε α) Q :=
  fun _ hs => ⟨h, hs⟩

theorem fail {e : ε} (h : Q (.error e) []) : Gives inv (fail e : Logged σ ω ε α) Q :=
  fun _ hs => ⟨h, hs⟩

theorem ofExcept {x : Except ε α} (h : Q x []) : Gives inv (ofExcept x : Logged σ ω ε α) Q := by
  cases x with
  | ok a => exact .pure h
  | error e => exact .fail h

theorem tell {w : ω} {Q : Except ε Unit → List ω → Prop} (h : Q (.ok ()) [w]) :
    Gives inv (tell w : Logged σ ω ε Unit) Q := fun _ hs => ⟨h, hs⟩

/-- A sequence, the second half from what the first one makes sure of. -/
theorem bind {f : α → Logged σ ω ε γ} {R : Except ε γ → List ω → Prop} (hm : Gives inv m Q)
    (hok : ∀ a w, Q (.ok a) w → Gives inv (f a) fun r w' => R r (w ++ w'))
    (herror : ∀ e w, Q (.error e) w → R (.error e) w) : Gives inv (m >>= f) R := by
  intro s hs
  obtain ⟨hQ, hkept⟩ := hm s hs
  unfold log at hQ
  rcases hrun : m s with ⟨e | a, w, s'⟩
  · rw [hrun] at hQ hkept
    unfold log
    rw [bind_of_error hrun]
    exact ⟨herror e w hQ, hkept⟩
  · rw [hrun] at hQ hkept
    have hlog : (m >>= f).log s = w ++ (f a).log s' := by
      rw [log, bind_of_ok hrun]
    rw [hlog, bind_of_ok hrun]
    exact hok a w hQ s' hkept

/-- A first half whose value is known. -/
theorem bind_ok {f : α → Logged σ ω ε γ} {R : Except ε γ → List ω → Prop} {a : α}
    (hm : Gives inv m fun r w => r = .ok a ∧ w = []) (hf : Gives inv (f a) R) :
    Gives inv (m >>= f) R := by
  refine hm.bind ?_ fun e w h => ?_
  · rintro b w ⟨hb, rfl⟩
    cases hb
    exact hf
  · cases h.1

theorem attempt {ε' : Type} (h : Gives inv m Q) :
    Gives inv (attempt m : Logged σ ω ε' _) fun r w => ∃ outcome, r = .ok outcome ∧ Q outcome w :=
  fun s hs => ⟨⟨_, rfl, (h s hs).1⟩, (h s hs).2⟩

end Gives

namespace Keeps

variable {inv : σ → Prop}

theorem pure (a : α) : Keeps inv (pure a : Logged σ ω ε α) := Gives.pure trivial

theorem fail (e : ε) : Keeps inv (fail e : Logged σ ω ε α) := Gives.fail trivial

theorem ofExcept (x : Except ε α) : Keeps inv (ofExcept x : Logged σ ω ε α) := Gives.ofExcept trivial

theorem tell (w : ω) : Keeps inv (tell w : Logged σ ω ε Unit) := Gives.tell trivial

theorem bind {f : α → Logged σ ω ε γ} (hm : Keeps inv m) (hf : ∀ a, Keeps inv (f a)) :
    Keeps inv (m >>= f) :=
  Gives.bind hm (fun a _ _ => (hf a).keeps) fun _ _ _ => trivial

theorem attempt {ε' : Type} (hm : Keeps inv m) :
    Keeps inv (attempt m : Logged σ ω ε' (Except ε α)) := hm

end Keeps

end Logged
