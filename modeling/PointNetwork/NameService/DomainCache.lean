import Mathlib.Data.Set.Function
import PointNetwork.CacheFactory
import PointNetwork.Machine

/-!
# Answers out of a cache over a chain

`resolveDomain` of `network/providers/solana.ts` and of `network/providers/ethereum.js` have one shape:
what is in the cache is the answer; else the chain is asked, with several calls, and what comes of it is
added. A call that writes removes the entry of its key when it has sent its transaction, and not when
the chain has it. Any number of calls are under way, and the chain goes on in the meantime.

`Fetched k a b v` says that a request that began at the height `a` of the chain and ended at the height
`b` can give `v`.

* `answer_fetched`: how old an answer can be;
* `answer_since`: when all answers are newer than a given height.
-/

namespace PointNetwork.DomainCache

open Js Machine

/-- A value, the height at which its request began and the time at which it ended. -/
structure Stamped (V : Type) where
  value : V
  since : ℕ
  added : ℕ

/-- What a request has been answered, and when. -/
structure Answer (K V : Type) where
  key : K
  stamped : Stamped V
  now : ℕ

/-- The cache with its clock, and the requests that have begun. -/
structure State (K V : Type) where
  now : ℕ
  height : ℕ
  cache : CacheFactory K (Stamped V)
  /-- The calls that wait for the chain: their keys, and the heights at which they began. -/
  fetches : ℕ → Option (K × ℕ)
  /-- What was answered, the last one first. -/
  answers : List (Answer K V)

/-- What happens to the cache and to the chain. -/
inductive Event (K V : Type)
  | tick (ms : ℕ)
  | block
  /-- The call number `i` begins. -/
  | resolve (i : ℕ) (k : K)
  /-- The chain has given `v` to the call. -/
  | fetched (i : ℕ) (v : V)
  /-- A call of the chain has thrown. -/
  | failed (i : ℕ)
  /-- A transaction that writes has been sent. -/
  | sent (k : K)

section

variable {K V : Type} [DecidableEq K]

/-- Nothing has been asked. -/
def State.init (ttlMs : ℕ) : State K V := ⟨0, 0, .new ttlMs none, fun _ => none, []⟩

/-- An entry that is not over is answered at once; else the chain is asked. -/
def step (s : State K V) : Event K V → Option (State K V)
  | .tick ms => some { s with now := s.now + ms }
  | .block => some { s with height := s.height + 1 }
  | .resolve i k =>
    match s.fetches i, s.cache.get s.now k with
    | some _, _ => none
    | none, (some cached, cache) =>
      some { s with cache := cache, answers := ⟨k, cached, s.now⟩ :: s.answers }
    | none, (none, cache) =>
      some { s with cache := cache, fetches := Function.update s.fetches i (some (k, s.height)) }
  | .fetched i v =>
    (s.fetches i).map fun fetch =>
      { s with
        cache := s.cache.add s.now fetch.1 ⟨v, fetch.2, s.now⟩
        fetches := Function.update s.fetches i none
        answers := ⟨fetch.1, ⟨v, fetch.2, s.now⟩, s.now⟩ :: s.answers }
  | .failed i => (s.fetches i).map fun _ => { s with fetches := Function.update s.fetches i none }
  | .sent k =>
    match s.cache.has s.now k with
    | (true, cache) => some { s with cache := (cache.rm k).2 }
    | (false, cache) => some { s with cache := cache }

/-- The chain gives what it can. -/
def Able (Fetched : K → ℕ → ℕ → V → Prop) (s : State K V) : Event K V → Prop
  | .fetched i v => ∀ k since, s.fetches i = some (k, since) → Fetched k since s.height v
  | _ => True

end

/-! ## What a step does -/

section

variable {K V : Type} [DecidableEq K] {s s' : State K V} {e : Event K V}

/-- The event ends a request for the key with this value. -/
def Ends (s : State K V) (e : Event K V) (k : K) (stamped : Stamped V) : Prop :=
  ∃ i, e = .fetched i stamped.value ∧ s.fetches i = some (k, stamped.since) ∧ stamped.added = s.now

/-- An entry of the cache that has not expired. -/
def Hit (s : State K V) (k : K) (stamped : Stamped V) : Prop :=
  ∃ entry, s.cache.cache.get k = some entry ∧ entry.entry = stamped ∧
    (entry.exp ≠ 0 → s.now ≤ entry.exp)

/-- All that a step can change. -/
structure Moves (s : State K V) (e : Event K V) (s' : State K V) : Prop where
  now : s.now ≤ s'.now
  height : s.height ≤ s'.height
  ttlMs : s'.cache.ttlMs = s.cache.ttlMs
  cached : ∀ k entry, s'.cache.cache.get k = some entry → s.cache.cache.get k = some entry ∨
    Ends s e k entry.entry ∧ entry.exp = s.now + s.cache.ttlMs
  fetches : ∀ i k since, s'.fetches i = some (k, since) →
    s.fetches i = some (k, since) ∨ since = s.height
  answers : s'.answers = s.answers ∨ ∃ a : Answer K V, s'.answers = a :: s.answers ∧ a.now = s.now ∧
    (Hit s a.key a.stamped ∨ Ends s e a.key a.stamped)

/-- An entry that is left when a key was looked up was there. -/
lemma cached_of_checkExpired {cache : CacheFactory K (Stamped V)} {now : ℕ} {k key : K}
    {entry : CacheEntry (Stamped V)}
    (h : (cache.checkExpired now k).cache.get key = some entry) :
    cache.cache.get key = some entry := (CacheFactory.of_get_checkExpired h).1

omit [DecidableEq K] in
/-- A call that waits after one of them has ended waited before. -/
lemma fetches_of_ended {fetches : ℕ → Option (K × ℕ)} {i j : ℕ} {fetch : K × ℕ}
    (h : Function.update fetches i none j = some fetch) : fetches j = some fetch := by
  by_cases hj : j = i
  · subst hj
    rw [Function.update_self] at h
    cases h
  · rwa [Function.update_of_ne hj] at h

/-- Each step is one of the moves. -/
theorem step_moves (h : step s e = some s') : Moves s e s' := by
  cases e with
  | tick ms =>
    cases h
    exact ⟨Nat.le_add_right _ _, Nat.le_refl _, rfl, fun _ _ h => .inl h, fun _ _ _ h => .inl h,
      .inl rfl⟩
  | block =>
    cases h
    exact ⟨Nat.le_refl _, Nat.le_add_right _ _, rfl, fun _ _ h => .inl h, fun _ _ _ h => .inl h,
      .inl rfl⟩
  | resolve i k =>
    unfold step at h
    cases hfetch : s.fetches i with
    | some f => simp [hfetch] at h
    | none =>
      rcases hget : s.cache.get s.now k with ⟨found, cache⟩
      have hcache : cache = s.cache.checkExpired s.now k := (congrArg Prod.snd hget).symm
      cases found with
      | some cached =>
        simp only [hfetch, hget] at h
        cases h
        refine ⟨Nat.le_refl _, Nat.le_refl _, ?_, fun key entry h => ?_, fun _ _ _ h => .inl h,
          .inr ⟨_, rfl, rfl, .inl ?_⟩⟩
        · rw [hcache, CacheFactory.ttlMs_checkExpired]
        · exact .inl (cached_of_checkExpired (hcache ▸ h))
        · exact CacheFactory.of_get (congrArg Prod.fst hget)
      | none =>
        simp only [hfetch, hget] at h
        cases h
        refine ⟨Nat.le_refl _, Nat.le_refl _, ?_, fun key entry h => ?_, fun j key since h => ?_,
          .inl rfl⟩
        · rw [hcache, CacheFactory.ttlMs_checkExpired]
        · exact .inl (cached_of_checkExpired (hcache ▸ h))
        -- the new request, or one that ran before
        · by_cases hj : j = i
          · subst hj
            simp only [Function.update_self, Option.some.injEq, Prod.mk.injEq] at h
            exact .inr h.2.symm
          · simp only [Function.update_of_ne hj] at h
            exact .inl h
  | fetched i v =>
    obtain ⟨⟨k, since⟩, hfetch, rfl⟩ := Option.map_eq_some_iff.mp h
    refine ⟨Nat.le_refl _, Nat.le_refl _, CacheFactory.ttlMs_add, fun key entry h => ?_,
      fun _ _ _ h => .inl (fetches_of_ended h), .inr ⟨_, rfl, rfl, .inr ⟨i, rfl, hfetch, rfl⟩⟩⟩
    obtain ⟨rfl, rfl⟩ | ⟨-, hold⟩ := CacheFactory.of_get_add h
    · exact .inr ⟨⟨i, rfl, hfetch, rfl⟩, rfl⟩
    · exact .inl hold
  | failed i =>
    obtain ⟨f, hfetch, rfl⟩ := Option.map_eq_some_iff.mp h
    exact ⟨Nat.le_refl _, Nat.le_refl _, rfl, fun _ _ h => .inl h,
      fun _ _ _ h => .inl (fetches_of_ended h), .inl rfl⟩
  | sent k =>
    -- `has` may drop an expired entry before the removal
    unfold step at h
    rcases hhas : s.cache.has s.now k with ⟨present, cache⟩
    have hcache : cache = s.cache.checkExpired s.now k := (congrArg Prod.snd hhas).symm
    have httl : cache.ttlMs = s.cache.ttlMs := by rw [hcache, CacheFactory.ttlMs_checkExpired]
    cases present with
    | true =>
      simp only [hhas] at h
      cases h
      refine ⟨Nat.le_refl _, Nat.le_refl _, httl, fun key entry h => ?_, fun _ _ _ h => .inl h,
        .inl rfl⟩
      exact .inl (cached_of_checkExpired (hcache ▸ (CacheFactory.of_get_rm h).2))
    | false =>
      simp only [hhas] at h
      cases h
      refine ⟨Nat.le_refl _, Nat.le_refl _, httl, fun key entry h => ?_, fun _ _ _ h => .inl h,
        .inl rfl⟩
      exact .inl (cached_of_checkExpired (hcache ▸ h))

/-! ## How old an answer can be -/

variable {Fetched : K → ℕ → ℕ → V → Prop} {ttlMs : ℕ}

/-- A request that has ended by this height can have given the value. -/
def Genuine (Fetched : K → ℕ → ℕ → V → Prop) (height : ℕ) (k : K) (stamped : Stamped V) : Prop :=
  ∃ h, stamped.since ≤ h ∧ h ≤ height ∧ Fetched k stamped.since h stamped.value

omit [DecidableEq K] in
/-- What the chain has held it has held at any later height. -/
lemma Genuine.mono {height height' : ℕ} {k : K} {stamped : Stamped V}
    (h : Genuine Fetched height k stamped) (hle : height ≤ height') :
    Genuine Fetched height' k stamped := by
  obtain ⟨b, hsince, hb, hfetched⟩ := h
  exact ⟨b, hsince, hb.trans hle, hfetched⟩

/-- What holds in each reachable state. -/
structure Inv (Fetched : K → ℕ → ℕ → V → Prop) (ttlMs : ℕ) (s : State K V) : Prop where
  ttl : s.cache.ttlMs = ttlMs
  cached : ∀ k entry, s.cache.cache.get k = some entry → Genuine Fetched s.height k entry.entry ∧
    entry.exp = entry.entry.added + ttlMs ∧ entry.entry.added ≤ s.now
  fetches : ∀ i k since, s.fetches i = some (k, since) → since ≤ s.height
  answers : ∀ a ∈ s.answers, Genuine Fetched s.height a.key a.stamped ∧ a.stamped.added ≤ a.now ∧
    a.now ≤ a.stamped.added + ttlMs

lemma Inv.init : Inv Fetched ttlMs (.init ttlMs) where
  ttl := rfl
  cached k entry h := by
    rw [State.init, CacheFactory.get_new] at h
    cases h
  fetches i k since h := by cases h
  answers a h := by cases h

/-- What ends a request is what the chain can give. -/
lemma Inv.ends {k : K} {stamped : Stamped V} (h : Inv Fetched ttlMs s) (hok : Able Fetched s e)
    (hends : Ends s e k stamped) : Genuine Fetched s.height k stamped := by
  obtain ⟨i, rfl, hfetch, -⟩ := hends
  exact ⟨s.height, h.fetches i k _ hfetch, Nat.le_refl _, hok k _ hfetch⟩

/-- Each event keeps the invariant. -/
theorem inv_step (hpos : 0 < ttlMs) (h : Inv Fetched ttlMs s) (hok : Able Fetched s e)
    (hs : step s e = some s') : Inv Fetched ttlMs s' := by
  have hmoves := step_moves hs
  refine ⟨hmoves.ttlMs.trans h.ttl, fun k entry hentry => ?_, fun i k since hfetch => ?_,
    fun a ha => ?_⟩
  · obtain hold | ⟨hends, hexp⟩ := hmoves.cached k entry hentry
    · obtain ⟨hgenuine, hexp, hadded⟩ := h.cached k entry hold
      exact ⟨hgenuine.mono hmoves.height, hexp, hadded.trans hmoves.now⟩
    · have hgenuine := (h.ends hok hends).mono hmoves.height
      obtain ⟨i, -, -, hadded⟩ := hends
      rw [h.ttl, ← hadded] at hexp
      exact ⟨hgenuine, hexp, hadded ▸ hmoves.now⟩
  · obtain hold | hnew := hmoves.fetches i k since hfetch
    · exact (h.fetches i k since hold).trans hmoves.height
    · exact hnew ▸ hmoves.height
  · obtain hsame | ⟨new, hnew, hnow, hhit | hends⟩ := hmoves.answers
    · obtain ⟨hgenuine, hle⟩ := h.answers a (hsame ▸ ha)
      exact ⟨hgenuine.mono hmoves.height, hle⟩
    all_goals
      rw [hnew] at ha
      obtain rfl | hold := List.mem_cons.mp ha
      rotate_left
      · obtain ⟨hgenuine, hle⟩ := h.answers a hold
        exact ⟨hgenuine.mono hmoves.height, hle⟩
    · obtain ⟨entry, hentry, hstamped, hlive⟩ := hhit
      obtain ⟨hgenuine, hexp, hadded⟩ := h.cached a.key entry hentry
      have hle := hlive (by omega)
      rw [hstamped] at hgenuine hexp hadded
      exact ⟨hgenuine.mono hmoves.height, by omega, by omega⟩
    · have hgenuine := (h.ends hok hends).mono hmoves.height
      obtain ⟨i, -, -, hadded⟩ := hends
      exact ⟨hgenuine, by omega, by omega⟩

/-- The invariant holds in every reachable state. -/
lemma inv_of_reach (hpos : 0 < ttlMs) (h : Reach step (Able Fetched) (.init ttlMs) s) :
    Inv Fetched ttlMs s :=
  h.invariant Inv.init fun _ _ _ h hok hs => inv_step hpos h hok hs

/-- Every answer is what the chain gave to a request that ended at most `ttlMs` before. -/
theorem answer_fetched (hpos : 0 < ttlMs) (h : Reach step (Able Fetched) (.init ttlMs) s) :
    ∀ a ∈ s.answers, Genuine Fetched s.height a.key a.stamped ∧ a.stamped.added ≤ a.now ∧
      a.now ≤ a.stamped.added + ttlMs :=
  (inv_of_reach hpos h).answers

/-! ## When all answers are new -/

/-- From time `t` on, what is answered for `k` is from requests that began at the height `L` or later. -/
structure Fresh (k : K) (L t : ℕ) (s : State K V) : Prop where
  height : L ≤ s.height
  fetches : ∀ i since, s.fetches i = some (k, since) → L ≤ since
  cached : ∀ entry, s.cache.cache.get k = some entry →
    L ≤ entry.entry.since ∨ entry.exp ≠ 0 ∧ entry.exp < t

/-- A step leaves no older entry behind. -/
theorem fresh_step {k : K} {L t : ℕ} (h : Fresh k L t s) (hs : step s e = some s') :
    Fresh k L t s' := by
  have hmoves := step_moves hs
  refine ⟨h.height.trans hmoves.height, fun i since hfetch => ?_, fun entry hentry => ?_⟩
  · obtain hold | rfl := hmoves.fetches i k since hfetch
    · exact h.fetches i since hold
    · exact h.height
  · obtain hold | ⟨⟨i, -, hfetch, -⟩, -⟩ := hmoves.cached k entry hentry
    · exact h.cached entry hold
    · exact .inl (h.fetches i _ hfetch)

/-- One answer more. -/
theorem fresh_answer {k : K} {L t : ℕ} (h : Fresh k L t s) (hs : step s e = some s') :
    ∃ new, s'.answers = new ++ s.answers ∧
      ∀ a ∈ new, a.key = k → t ≤ a.now → L ≤ a.stamped.since := by
  obtain hsame | ⟨a, hnew, hnow, hanswer⟩ := (step_moves hs).answers
  · exact ⟨[], hsame, by simp⟩
  · refine ⟨[a], hnew, fun a' ha' hkey ht => ?_⟩
    obtain rfl := List.mem_singleton.mp ha'
    subst hkey
    obtain ⟨entry, hentry, hstamped, hlive⟩ | ⟨i, -, hfetch, -⟩ := hanswer
    · obtain hsince | ⟨hexp, hlt⟩ := h.cached entry hentry
      · exact hstamped ▸ hsince
      · have hle := hlive hexp
        omega
    · exact h.fetches i _ hfetch

/-- From there on no older content is answered. -/
theorem fresh_reach {ok : State K V → Event K V → Prop} {k : K} {L t : ℕ} (h : Fresh k L t s)
    (hreach : Reach step ok s s') :
    ∃ new, s'.answers = new ++ s.answers ∧
      ∀ a ∈ new, a.key = k → t ≤ a.now → L ≤ a.stamped.since := by
  have hboth : Fresh k L t s' ∧ ∃ new, s'.answers = new ++ s.answers ∧
      ∀ a ∈ new, a.key = k → t ≤ a.now → L ≤ a.stamped.since := by
    refine hreach.invariant (P := fun s' => Fresh k L t s' ∧ ∃ new, s'.answers = new ++ s.answers ∧
      ∀ a ∈ new, a.key = k → t ≤ a.now → L ≤ a.stamped.since) ⟨h, [], rfl, by simp⟩ ?_
    rintro s₁ e s₂ ⟨hfresh, new, hnew, hall⟩ - hs
    obtain ⟨new', hnew', hall'⟩ := fresh_answer hfresh hs
    refine ⟨fresh_step hfresh hs, new' ++ new, by rw [hnew', hnew, List.append_assoc], ?_⟩
    intro a ha
    obtain ha | ha := List.mem_append.mp ha
    · exact hall' a ha
    · exact hall a ha
  exact hboth.2

/-- When no request for the key is under way that began below the height `L`, then from `ttlMs` later
on all answers are from requests that began at `L` or above. If the cache holds nothing older, they are
at once. -/
theorem answer_since {L : ℕ} (hpos : 0 < ttlMs) (k : K)
    (h : Reach step (Able Fetched) (.init ttlMs) s) (hL : L ≤ s.height)
    (hfetches : ∀ i since, s.fetches i = some (k, since) → L ≤ since)
    (hreach : Reach step (Able Fetched) s s') :
    ∃ new, s'.answers = new ++ s.answers ∧ ∀ a ∈ new, a.key = k →
      s.now + ttlMs < a.now ∨ (∀ entry, s.cache.cache.get k = some entry → L ≤ entry.entry.since) →
        L ≤ a.stamped.since ∧ Genuine Fetched s'.height a.key a.stamped := by
  have hinv := inv_of_reach hpos h
  have hlater : Fresh k L (s.now + ttlMs + 1) s := by
    refine ⟨hL, hfetches, fun entry hentry => .inr ?_⟩
    obtain ⟨-, hexp, hadded⟩ := hinv.cached k entry hentry
    omega
  obtain ⟨new, hnew, hall⟩ := fresh_reach hlater hreach
  refine ⟨new, hnew, fun a ha hkey hcond => ⟨?_, ?_⟩⟩
  · obtain hnow | hcache := hcond
    · exact hall a ha hkey hnow
    · have hatOnce : Fresh k L 0 s := ⟨hL, hfetches, fun entry hentry => .inl (hcache entry hentry)⟩
      obtain ⟨new', hnew', hall'⟩ := fresh_reach hatOnce hreach
      obtain rfl : new' = new := List.append_cancel_right (hnew'.symm.trans hnew)
      exact hall' a ha hkey (Nat.zero_le _)
  · apply (answer_fetched hpos (h.trans hreach) a _).1
    rw [hnew]
    exact List.mem_append_left _ ha

/-! ## What the removal does not prevent -/

/-- The entry of the key is gone when a transaction has been sent, and nothing else has changed. -/
lemma step_sent (s : State K V) (k : K) : ∃ cache : CacheFactory K (Stamped V),
    step s (.sent k) = some { s with cache := cache } ∧ cache.cache.get k = none ∧
      cache.ttlMs = s.cache.ttlMs := by
  rcases hhas : s.cache.has s.now k with ⟨present, cache⟩
  have hcache : cache = s.cache.checkExpired s.now k := (congrArg Prod.snd hhas).symm
  have hpresent : present = cache.cache.has k := by
    rw [hcache]
    exact (congrArg Prod.fst hhas).symm
  have httl : cache.ttlMs = s.cache.ttlMs := by rw [hcache, CacheFactory.ttlMs_checkExpired]
  unfold step
  cases present with
  | true => exact ⟨(cache.rm k).2, by simp only [hhas], Map.get_delete_self, httl⟩
  | false =>
    refine ⟨cache, by simp only [hhas], Map.get_eq_none.mpr fun hmem => ?_, httl⟩
    rw [Map.has_iff.mpr hmem] at hpresent
    cases hpresent

/-- A request that does not find its key in the cache, with an answer from the chain at once. -/
lemma exists_asked {k : K} {i : ℕ} (hidle : s.fetches i = none)
    (hmiss : (s.cache.get s.now k).1 = none) {v : V} (hv : Fetched k s.height s.height v) :
    ∃ s', Reach step (Able Fetched) s s' ∧ s'.now = s.now ∧ s'.height = s.height ∧
      s'.fetches = s.fetches ∧ s'.answers = ⟨k, ⟨v, s.height, s.now⟩, s.now⟩ :: s.answers ∧
      s'.cache.cache.get k = some ⟨s.now + s.cache.ttlMs, ⟨v, s.height, s.now⟩⟩ := by
  let asked : State K V :=
    { s with
      cache := s.cache.checkExpired s.now k
      fetches := Function.update s.fetches i (some (k, s.height)) }
  have hasked : step s (.resolve i k) = some asked := by
    have hget : s.cache.get s.now k = (none, s.cache.checkExpired s.now k) := Prod.ext hmiss rfl
    simp only [step, hidle, hget, asked]
  have hable : Able Fetched asked (.fetched i v) := by
    intro key since hfetch
    simp only [asked, Function.update_self, Option.some.injEq, Prod.mk.injEq] at hfetch
    obtain ⟨rfl, rfl⟩ := hfetch
    exact hv
  have hanswered : step asked (.fetched i v) = some
      { asked with
        cache := asked.cache.add s.now k ⟨v, s.height, s.now⟩
        fetches := Function.update asked.fetches i none
        answers := ⟨k, ⟨v, s.height, s.now⟩, s.now⟩ :: s.answers } := by
    simp only [step, asked, Function.update_self, Option.map_some]
  refine ⟨_, (Reach.init.step trivial hasked).step hable hanswered, rfl, rfl, ?_, rfl, ?_⟩
  · show Function.update (Function.update s.fetches i _) i none = s.fetches
    rw [Function.update_idem, ← hidle, Function.update_eq_self]
  · have httl : asked.cache.ttlMs = s.cache.ttlMs := CacheFactory.ttlMs_checkExpired
    rw [← httl]
    exact Map.get_set_self

/-- However a node has run: when a transaction for the key was sent, and a request for it gets its
answer from the chain before the transaction is there, this answer is still given `d` later, for any
`d` up to `ttlMs`. -/
theorem stale_answer (hpos : 0 < ttlMs) (h : Reach step (Able Fetched) (.init ttlMs) s) (k : K)
    {i : ℕ} (hidle : s.fetches i = none) {v : V} (hv : Fetched k s.height s.height v) {d : ℕ}
    (hd : d ≤ ttlMs) :
    ∃ s₁ s', step s (.sent k) = some s₁ ∧ Reach step (Able Fetched) s₁ s' ∧
      s'.height = s.height + 1 ∧ s'.now = s.now + d ∧
        s'.answers.head? = some ⟨k, ⟨v, s.height, s.now⟩, s.now + d⟩ := by
  have hinv := inv_of_reach hpos h
  obtain ⟨cache, hsent, hnone, httl⟩ := step_sent s k
  have hmiss : (cache.get s.now k).1 = none := by
    rw [CacheFactory.get_fst, hnone, Option.bind_none]
  obtain ⟨s₂, hasked, hnow, hheight, hfetches, -, hentry⟩ :=
    exists_asked (s := { s with cache := cache }) hidle hmiss hv
  -- the block comes, and time passes
  let later : State K V := { s₂ with height := s₂.height + 1, now := s₂.now + d }
  have hlater : Reach step (Able Fetched) { s with cache := cache } later :=
    (hasked.step (e := Event.block) trivial rfl).step (e := Event.tick d) trivial rfl
  have hexp : cache.ttlMs = ttlMs := httl.trans hinv.ttl
  have hhit : (later.cache.get later.now k).1 = some ⟨v, s.height, s.now⟩ := by
    have hlive : ¬ (s.now + cache.ttlMs < s₂.now + d) := by
      rw [hnow, hexp]
      dsimp only
      omega
    rw [CacheFactory.get_fst, hentry, Option.bind_some, if_neg fun hexpired => hlive hexpired.2]
  have hfree : later.fetches i = none := by
    show s₂.fetches i = none
    rw [hfetches]
    exact hidle
  rcases hget : later.cache.get later.now k with ⟨found, cache'⟩
  rw [hget] at hhit
  obtain rfl : found = some ⟨v, s.height, s.now⟩ := hhit
  have hagain : step later (.resolve i k) = some
      { later with
        cache := cache', answers := ⟨k, ⟨v, s.height, s.now⟩, later.now⟩ :: later.answers } := by
    unfold step
    simp only [hfree, hget]
  refine ⟨_, _, hsent, hlater.step (e := .resolve i k) trivial hagain, ?_, ?_, ?_⟩
  · exact congrArg (· + 1) hheight
  · exact congrArg (· + d) hnow
  · show some (⟨k, _, s₂.now + d⟩ : Answer K V) = _
    rw [hnow]

/-- A key is asked for at the height 0, and again at the height 1 when the first answer has expired. -/
theorem exists_asked_again {ttlMs : ℕ} (hpos : 0 < ttlMs) {k : K} {old new : V}
    (hold : Fetched k 0 0 old) (hnew : Fetched k 1 1 new) :
    ∃ s s' a, Reach step (Able Fetched) (.init ttlMs) s ∧ Reach step (Able Fetched) s s' ∧
      s.height = 1 ∧ (∀ i, s.fetches i = none) ∧ s.answers = [⟨k, ⟨old, 0, 0⟩, 0⟩] ∧
        s'.answers = a :: s.answers ∧ a.key = k ∧ s.now + ttlMs < a.now := by
  obtain ⟨s₁, hasked, hnow, hheight, hfetches, hanswers, hentry⟩ :=
    exists_asked (s := .init ttlMs) (i := 0) rfl (by rw [CacheFactory.get_fst]; rfl) hold
  let s : State K V := { s₁ with height := s₁.height + 1 }
  have hs : Reach step (Able Fetched) (.init ttlMs) s := hasked.step (e := Event.block) trivial rfl
  let later : State K V := { s with now := s.now + (ttlMs + 1) }
  have hlater : Reach step (Able Fetched) s later :=
    Reach.init.step (e := Event.tick (ttlMs + 1)) trivial rfl
  have hzero : s₁.now = 0 := hnow
  have hone : later.height = 1 := congrArg (· + 1) hheight
  have hmiss : (later.cache.get later.now k).1 = none := by
    have hexpired : 0 + ttlMs ≠ 0 ∧ 0 + ttlMs < s₁.now + (ttlMs + 1) := by omega
    show (s₁.cache.get (s₁.now + (ttlMs + 1)) k).1 = none
    rw [CacheFactory.get_fst, hentry, Option.bind_some]
    exact if_pos hexpired
  obtain ⟨s', hagain, -, -, -, hanswers', -⟩ :=
    exists_asked (s := later) (i := 0) (congrFun hfetches 0) hmiss (hone.symm ▸ hnew)
  refine ⟨s, s', _, hs, hlater.trans hagain, hone, congrFun hfetches, hanswers, hanswers', rfl, ?_⟩
  show s₁.now + ttlMs < s₁.now + (ttlMs + 1)
  omega

end

end PointNetwork.DomainCache
