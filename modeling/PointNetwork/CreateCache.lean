import PointNetwork.Machine
import PointNetwork.NodeCache

/-!
# Lookups that share a promise

`get` of `createCache` of `util/cache.ts`: it returns the promise that the cache holds under the
key, and else keeps the one of a call of its own store function. Promises settle at any later
time, as the store functions go.

The promise is kept from the start of the lookup for the time to live, whatever becomes of it. So
a caller may be given a promise that has been rejected already, and a second lookup starts while
the first is pending or its result is still young (`get_right_iff`).
-/

namespace PointNetwork.CreateCache

open Js

/-- What has become of the promise of a store function, and when. -/
inductive Status (T E : Type)
  | pending
  | resolved (time : ℕ) (value : T)
  | rejected (time : ℕ) (error : E)
  deriving DecidableEq

/-- A call of a store function. -/
structure Lookup (T E : Type) where
  key : JsString
  startedAt : ℕ
  status : Status T E
  deriving DecidableEq

variable {T E : Type} {cache : NodeCache ℕ}

/-- The time, the cache, and the calls of store functions in their order, by whose places the
promises are told apart. -/
structure State (T E : Type) (cache : NodeCache ℕ) where
  now : ℕ
  store : cache.Store
  lookups : List (Lookup T E)

/-- A cache that has not been asked for anything. -/
def State.init (T E : Type) (cache : NodeCache ℕ) : State T E cache := ⟨0, cache.empty, []⟩

/-- What `get` returns, and whether it has called its store function. -/
structure Answer where
  promise : ℕ
  calls : Bool
  deriving DecidableEq

/-- `get(key, storeFunction)`. A promise is truthy, whatever it resolves to. -/
def State.get (st : State T E cache) (key : JsString) : Answer × State T E cache :=
  match cache.get st.store st.now key with
  | some value => (⟨value, false⟩, st)
  | none =>
    let calculatedValue := st.lookups.length
    (⟨calculatedValue, true⟩,
      { st with
        store := cache.set st.store st.now key calculatedValue
        lookups := st.lookups ++ [⟨key, st.now, .pending⟩] })

/-- A request for a key, the outcome of a promise, or time that passes. -/
inductive Event (T E : Type)
  | get (key : JsString)
  | resolve (promise : ℕ) (value : T)
  | reject (promise : ℕ) (error : E)
  | pass (milliseconds : ℕ)

/-- A pending promise settles. -/
def State.settle (st : State T E cache) (promise : ℕ) (status : Status T E) :
    Option (State T E cache) :=
  match st.lookups[promise]? with
  | some ⟨key, startedAt, .pending⟩ =>
    some { st with lookups := st.lookups.set promise ⟨key, startedAt, status⟩ }
  | _ => none

/-- One event; a promise settles once. -/
def step (st : State T E cache) : Event T E → Option (State T E cache)
  | .get key => some (st.get key).2
  | .resolve promise value => st.settle promise (.resolved st.now value)
  | .reject promise error => st.settle promise (.rejected st.now error)
  | .pass milliseconds => some { st with now := st.now + milliseconds }

/-! ## What is meant -/

/-- Pending, or resolved no longer ago than the time to live. -/
def Lookup.Young (now : ℕ) (lookup : Lookup T E) : Prop :=
  lookup.status = .pending ∨ ∃ time value, lookup.status = .resolved time value ∧ now ≤ time + ttl

/-- The promise of the lookup has been rejected. -/
def Lookup.Rejected (lookup : Lookup T E) : Prop :=
  ∃ time error, lookup.status = .rejected time error

namespace State

variable (st : State T E cache) (key : JsString)

/-- The promise is of a lookup of the key. -/
def IsLookup (promise : ℕ) (lookup : Lookup T E) : Prop :=
  st.lookups[promise]? = some lookup ∧ lookup.key = key

/-- The promise is of the newest lookup of the key. -/
def IsNewest (promise : ℕ) (lookup : Lookup T E) : Prop :=
  st.IsLookup key promise lookup ∧
    ∀ newer lookup', st.IsLookup key newer lookup' → newer ≤ promise

/-- A `get` is not answered with a rejection of the past, looks up for itself after one unless
a newer lookup is pending or resolved, and shares a lookup that is pending or has resolved within
the time to live. -/
structure Right : Prop where
  not_rejected : ∀ lookup, st.lookups[(st.get key).1.promise]? = some lookup → ¬ lookup.Rejected
  retries : ∀ promise lookup, st.IsLookup key promise lookup → lookup.Rejected →
    (∀ newer lookup', st.IsLookup key newer lookup' → promise < newer → lookup'.Rejected) →
      (st.get key).1.calls = true
  shares : (∃ promise lookup, st.IsLookup key promise lookup ∧ lookup.Young st.now) →
    (st.get key).1.calls = false ∧
      ∃ lookup, st.IsLookup key (st.get key).1.promise lookup ∧ lookup.Young st.now

/-- The newest lookup of the key is not rejected, as long as the time to live from its start has
not passed; after that no lookup of the key is pending or young. -/
def Meets : Prop :=
  ∀ promise lookup, st.IsNewest key promise lookup →
    (st.now ≤ lookup.startedAt + ttl → ¬ lookup.Rejected) ∧
      (lookup.startedAt + ttl < st.now →
        ∀ promise' lookup', st.IsLookup key promise' lookup' → ¬ lookup'.Young st.now)

end State

/-! ## The entries of the cache -/

/-- The cache holds the newest lookup of each key, from its start for the time to live. -/
structure Inv (st : State T E cache) : Prop where
  newest : ∀ now key promise, cache.get st.store now key = some promise →
    ∃ lookup, st.IsNewest key promise lookup
  kept : ∀ key promise lookup, st.IsNewest key promise lookup →
    ∀ now, lookup.startedAt ≤ now →
      (cache.get st.store now key = some promise ↔ now ≤ lookup.startedAt + ttl)
  started : ∀ lookup ∈ st.lookups, lookup.startedAt ≤ st.now
  settled : ∀ lookup ∈ st.lookups, ∀ time value, lookup.status = .resolved time value →
    lookup.startedAt ≤ time

/-- A key has one newest lookup. -/
lemma State.IsNewest.unique {st : State T E cache} {key : JsString} {promise promise' : ℕ}
    {lookup lookup' : Lookup T E} (h : st.IsNewest key promise lookup)
    (h' : st.IsNewest key promise' lookup') : promise = promise' ∧ lookup = lookup' := by
  have heq : promise = promise' := le_antisymm (h'.2 _ _ h.1) (h.2 _ _ h'.1)
  subst heq
  exact ⟨rfl, Option.some.inj (h.1.1.symm.trans h'.1.1)⟩

/-- Where there is a lookup of a key there is a newest one. -/
lemma exists_newest {st : State T E cache} {key : JsString} {promise : ℕ} {lookup : Lookup T E}
    (h : st.IsLookup key promise lookup) :
    ∃ promise' lookup', st.IsNewest key promise' lookup' := by
  have hlt : ∀ promise lookup, st.IsLookup key promise lookup → promise < st.lookups.length :=
    fun promise lookup h => (List.getElem?_eq_some_iff.mp h.1).1
  induction hn : st.lookups.length - promise using Nat.strong_induction_on
    generalizing promise lookup with
  | _ n ih =>
    by_cases hnewer : ∃ newer lookup', st.IsLookup key newer lookup' ∧ promise < newer
    · rcases hnewer with ⟨newer, lookup', hlookup', hlater⟩
      have := hlt newer lookup' hlookup'
      exact ih _ (by omega) hlookup' rfl
    · refine ⟨promise, lookup, h, ?_⟩
      intro newer lookup' hlookup'
      by_contra hlater
      exact hnewer ⟨newer, lookup', hlookup', by omega⟩

lemma inv_init : Inv (State.init T E cache) where
  newest := by
    intro now key promise hfound
    rw [State.init, cache.get_empty] at hfound
    cases hfound
  kept := by
    intro key promise lookup h
    rcases h with ⟨⟨hlookup, -⟩, -⟩
    cases hlookup
  started := by
    intro lookup h
    cases h
  settled := by
    intro lookup h
    cases h

/-- The lookups after a store function was called. -/
lemma isLookup_append {st : State T E cache} {store : cache.Store} {key key' : JsString}
    {promise : ℕ} {lookup : Lookup T E} :
    (@State.mk T E cache st.now store (st.lookups ++ [⟨key, st.now, .pending⟩])).IsLookup key'
        promise lookup ↔
      st.IsLookup key' promise lookup ∨
        (promise = st.lookups.length ∧ lookup = ⟨key, st.now, .pending⟩ ∧ key' = key) := by
  unfold State.IsLookup
  by_cases hlt : promise < st.lookups.length
  · rw [List.getElem?_append_left hlt]
    have hne : promise ≠ st.lookups.length := by omega
    simp [hne]
  · have hnone : st.lookups[promise]? = none := List.getElem?_eq_none (by omega)
    rw [List.getElem?_append_right (by omega), List.getElem?_singleton, hnone]
    by_cases heq : promise = st.lookups.length
    · subst heq
      simp only [Nat.sub_self, if_pos, Option.some.injEq, reduceCtorEq, false_and, false_or,
        true_and]
      constructor
      · rintro ⟨rfl, rfl⟩
        exact ⟨rfl, rfl⟩
      · rintro ⟨rfl, rfl⟩
        exact ⟨rfl, rfl⟩
    · have hne : promise - st.lookups.length ≠ 0 := by omega
      simp [heq, hne]

/-- An entry is found for the time to live and not after it. -/
def Expires (cache : NodeCache ℕ) : Prop :=
  ∀ store now key value now', now ≤ now' →
    (cache.get (cache.set store now key value) now' key = some value ↔ now' ≤ now + ttl)

/-- A request keeps the invariant, whether the entry is there or made. -/
lemma Inv.get {st : State T E cache} (hexpires : Expires cache) (h : Inv st) (key : JsString) :
    Inv (st.get key).2 := by
  unfold State.get
  cases hget : cache.get st.store st.now key with
  | some value => exact h
  | none =>
    dsimp only
    have hlt : ∀ {key' promise lookup}, st.IsLookup key' promise lookup →
        promise < st.lookups.length := fun hlookup => (List.getElem?_eq_some_iff.mp hlookup.1).1
    -- the new lookup is the newest one of its key, and the others stay
    have hnewest : ∀ key' promise lookup, (@State.mk T E cache st.now
        (cache.set st.store st.now key st.lookups.length)
        (st.lookups ++ [⟨key, st.now, .pending⟩])).IsNewest key' promise lookup ↔
        if key' = key then promise = st.lookups.length ∧ lookup = ⟨key, st.now, .pending⟩
        else st.IsNewest key' promise lookup := by
      intro key' promise lookup
      unfold State.IsNewest
      simp only [isLookup_append]
      by_cases hkey : key' = key
      · rw [if_pos hkey]
        constructor
        · intro hnew
          have hlast := hnew.2 st.lookups.length ⟨key, st.now, .pending⟩ (.inr ⟨rfl, rfl, hkey⟩)
          rcases hnew.1 with hold | ⟨hpromise, hlookup, -⟩
          · have := hlt hold
            omega
          · exact ⟨hpromise, hlookup⟩
        · intro hnew
          refine ⟨.inr ⟨hnew.1, hnew.2, hkey⟩, ?_⟩
          intro newer lookup' hlookup'
          rcases hlookup' with hold | ⟨hnewer, -, -⟩
          · have := hlt hold
            omega
          · omega
      · rw [if_neg hkey]
        simp only [hkey, and_false, or_false]
    exact {
      newest := by
        intro now key' promise hfound
        rcases NodeCache.of_get_set hfound with ⟨rfl, rfl⟩ | ⟨hne, hold⟩
        · exact ⟨_, (hnewest _ _ _).mpr (by rw [if_pos rfl]; exact ⟨rfl, rfl⟩)⟩
        · rcases h.newest now key' promise hold with ⟨lookup, hlookup⟩
          exact ⟨lookup, (hnewest _ _ _).mpr (by rw [if_neg hne]; exact hlookup)⟩
      kept := by
        intro key' promise lookup hlookup now hnow
        rw [hnewest] at hlookup
        by_cases hkey : key' = key
        · rw [if_pos hkey] at hlookup
          rcases hlookup with ⟨rfl, rfl⟩
          rw [hkey]
          exact hexpires _ _ _ _ _ hnow
        · rw [if_neg hkey] at hlookup
          dsimp only
          rw [cache.get_set_ne hkey]
          exact h.kept key' promise lookup hlookup now hnow
      started := by
        intro lookup hlookup
        rcases List.mem_append.mp hlookup with hold | hnew
        · exact h.started lookup hold
        · rw [List.mem_singleton.mp hnew]
      settled := by
        intro lookup hlookup time value hstatus
        rcases List.mem_append.mp hlookup with hold | hnew
        · exact h.settled lookup hold time value hstatus
        · rw [List.mem_singleton.mp hnew] at hstatus
          cases hstatus }

/-- A promise that settles stays the lookup that it is. -/
lemma settle_cases {st st' : State T E cache} {promise : ℕ} {status : Status T E}
    (h : st.settle promise status = some st') :
    ∃ key startedAt, st.lookups[promise]? = some ⟨key, startedAt, .pending⟩ ∧
      st' = { st with lookups := st.lookups.set promise ⟨key, startedAt, status⟩ } := by
  unfold State.settle at h
  split at h
  · rename_i key startedAt hpending
    exact ⟨key, startedAt, hpending, (Option.some.inj h).symm⟩
  · cases h

/-- A promise that settles keeps the invariant. -/
lemma Inv.settle {st st' : State T E cache} {promise : ℕ} {status : Status T E} (h : Inv st)
    (hs : st.settle promise status = some st')
    (hstatus : ∀ time value, status = .resolved time value → st.now ≤ time) : Inv st' := by
  rcases settle_cases hs with ⟨key, startedAt, hpending, rfl⟩
  have hlt := (List.getElem?_eq_some_iff.mp hpending).1
  have hmem := List.mem_of_getElem? hpending
  -- the keys of the lookups and their starts stay
  have hback : ∀ {key' i lookup}, ({ st with
      lookups := st.lookups.set promise ⟨key, startedAt, status⟩ } : State T E cache).IsLookup key'
        i lookup → ∃ old, st.IsLookup key' i old ∧ old.startedAt = lookup.startedAt := by
    intro key' i lookup hlookup
    rcases hlookup with ⟨hlookup, hkey⟩
    dsimp only at hlookup
    by_cases heq : promise = i
    · subst heq
      rw [List.getElem?_set_self hlt] at hlookup
      cases hlookup
      exact ⟨_, ⟨hpending, hkey⟩, rfl⟩
    · rw [List.getElem?_set_ne heq] at hlookup
      exact ⟨lookup, ⟨hlookup, hkey⟩, rfl⟩
  have hforth : ∀ {key' i old}, st.IsLookup key' i old → ∃ lookup, ({ st with
      lookups := st.lookups.set promise ⟨key, startedAt, status⟩ } : State T E cache).IsLookup key'
        i lookup := by
    intro key' i old hold
    rcases hold with ⟨hold, hkey⟩
    by_cases heq : promise = i
    · subst heq
      rw [hpending] at hold
      cases hold
      exact ⟨_, List.getElem?_set_self hlt, hkey⟩
    · exact ⟨old, (List.getElem?_set_ne heq).trans hold, hkey⟩
  exact {
    newest := by
      intro now key' entry hfound
      rcases h.newest now key' entry hfound with ⟨old, hold, hnewest⟩
      rcases hforth hold with ⟨lookup, hlookup⟩
      refine ⟨lookup, hlookup, ?_⟩
      intro newer lookup' hlookup'
      rcases hback hlookup' with ⟨old', hold', -⟩
      exact hnewest newer old' hold'
    kept := by
      intro key' entry lookup hnewest now hnow
      rcases hback hnewest.1 with ⟨old, hold, hstarted⟩
      rw [← hstarted] at hnow ⊢
      refine h.kept key' entry old ⟨hold, ?_⟩ now hnow
      intro newer old' hold'
      rcases hforth hold' with ⟨lookup', hlookup'⟩
      exact hnewest.2 newer lookup' hlookup'
    started := by
      intro lookup hlookup
      rcases List.mem_or_eq_of_mem_set hlookup with hold | rfl
      · exact h.started lookup hold
      · exact h.started ⟨key, startedAt, .pending⟩ hmem
    settled := by
      intro lookup hlookup time value heq
      rcases List.mem_or_eq_of_mem_set hlookup with hold | rfl
      · exact h.settled lookup hold time value heq
      · exact (h.started ⟨key, startedAt, .pending⟩ hmem).trans (hstatus time value heq) }

/-- The invariant holds in every reachable state. -/
lemma inv_of_reach (hexpires : Expires cache) {st : State T E cache}
    (h : Machine.Reach step Machine.Any (State.init T E cache) st) : Inv st := by
  refine h.invariant inv_init ?_
  intro st event st' hinv _ hs
  cases event with
  | get key =>
    cases hs
    exact hinv.get hexpires key
  | resolve promise value =>
    apply hinv.settle hs
    intro time value' heq
    cases heq
    exact le_refl _
  | reject promise error =>
    apply hinv.settle hs
    intro time value heq
    cases heq
  | pass milliseconds =>
    cases hs
    refine { hinv with started := ?_ }
    intro lookup hlookup
    exact (hinv.started lookup hlookup).trans (Nat.le_add_right _ _)

/-! ## The answers -/

/-- An entry in the cache is answered. -/
lemma get_some {st : State T E cache} {key : JsString} {promise : ℕ}
    (h : cache.get st.store st.now key = some promise) : (st.get key).1 = ⟨promise, false⟩ := by
  simp only [State.get, h]

/-- A new lookup is begun when there is no entry. -/
lemma get_none {st : State T E cache} {key : JsString}
    (h : cache.get st.store st.now key = none) :
    (st.get key).1 = ⟨st.lookups.length, true⟩ := by
  simp only [State.get, h]

/-- A lookup whose promise is found and not rejected is pending or young. -/
lemma Inv.young {st : State T E cache} (h : Inv st) {key : JsString} {promise : ℕ}
    {lookup : Lookup T E} (hlookup : st.IsLookup key promise lookup)
    (hnow : st.now ≤ lookup.startedAt + ttl) (hnot : ¬ lookup.Rejected) :
    lookup.Young st.now := by
  cases hstatus : lookup.status with
  | pending => exact .inl hstatus
  | resolved time value =>
    have := h.settled lookup (List.mem_of_getElem? hlookup.1) time value hstatus
    exact .inr ⟨time, value, hstatus, by omega⟩
  | rejected time error => exact absurd ⟨time, error, hstatus⟩ hnot

/-- The newest lookup of a key is in the cache as long as its time is not over. -/
lemma Inv.found {st : State T E cache} (h : Inv st) {key : JsString} {promise : ℕ}
    {lookup : Lookup T E} (hnewest : st.IsNewest key promise lookup) :
    cache.get st.store st.now key = some promise ↔ st.now ≤ lookup.startedAt + ttl :=
  h.kept key promise lookup hnewest st.now
    (h.started lookup (List.mem_of_getElem? hnewest.1.1))

/-- After any calls of `get`, promises settling in any order and any time passing, a `get` is
answered as it should if and only if the newest lookup of its key is not rejected within the time
to live from its start, and nothing is pending or young after that. -/
theorem get_right_iff (hexpires : Expires cache) {st : State T E cache}
    (h : Machine.Reach step Machine.Any (State.init T E cache) st) (key : JsString) :
    st.Right key ↔ st.Meets key := by
  have hinv := inv_of_reach hexpires h
  constructor
  · intro hright promise lookup hnewest
    refine ⟨?_, ?_⟩
    · intro hnow
      have hanswer := get_some ((hinv.found hnewest).mpr hnow)
      apply hright.not_rejected
      rw [hanswer]
      exact hnewest.1.1
    · intro hlate promise' lookup' hlookup' hyoung
      have hcalls := (hright.shares ⟨promise', lookup', hlookup', hyoung⟩).1
      cases hfound : cache.get st.store st.now key with
      | none =>
        rw [get_none hfound] at hcalls
        cases hcalls
      | some found =>
        -- what is found is the newest lookup
        rcases hinv.newest st.now key found hfound with ⟨lookup'', hnewest''⟩
        rw [(hnewest''.unique hnewest).1, hinv.found hnewest] at hfound
        omega
  · intro hmeets
    cases hfound : cache.get st.store st.now key with
    | none =>
      refine ⟨?_, ?_, ?_⟩
      · intro lookup hlookup
        rw [get_none hfound, List.getElem?_eq_none (le_refl _)] at hlookup
        cases hlookup
      · intro _ _ _ _ _
        rw [get_none hfound]
      · intro hyoung
        rcases hyoung with ⟨promise, lookup, hlookup, hyoung⟩
        rcases exists_newest hlookup with ⟨promise', lookup', hnewest⟩
        have hlate : ¬ st.now ≤ lookup'.startedAt + ttl := by
          rw [← hinv.found hnewest, hfound]
          exact fun h => (by cases h)
        exact absurd hyoung ((hmeets promise' lookup' hnewest).2 (by omega) promise lookup hlookup)
    | some promise =>
      rcases hinv.newest st.now key promise hfound with ⟨lookup, hnewest⟩
      have hnow := (hinv.found hnewest).mp hfound
      have hnot := (hmeets promise lookup hnewest).1 hnow
      refine ⟨?_, ?_, ?_⟩
      · intro lookup' hlookup'
        rw [get_some hfound, hnewest.1.1] at hlookup'
        rw [← Option.some.inj hlookup']
        exact hnot
      · -- the newest lookup is a rejected one, or newer than it and rejected too
        intro old lookup' hlookup' hrejected hnewer
        have hle := hnewest.2 old lookup' hlookup'
        rcases Nat.eq_or_lt_of_le hle with rfl | hlt
        · rw [Option.some.inj (hnewest.1.1.symm.trans hlookup'.1)] at hnot
          exact absurd hrejected hnot
        · exact absurd (hnewer promise lookup hnewest.1 hlt) hnot
      · intro _
        rw [get_some hfound]
        exact ⟨rfl, lookup, hnewest.1, hinv.young hnewest.1 hnow hnot⟩

/-! ## Runs -/

/-- A store function that rejects; a second later its promise is still kept. -/
def failedOnce : List (Event ℕ ℕ) := [.get (js "site-key"), .reject 0 1, .pass 1000]

/-- A store function that is pending for longer than the time to live. -/
def slow : List (Event ℕ ℕ) := [.get (js "site-key"), .pass 20001]

/-- The state after a run, in the cache whose entries carry their time. -/
def stateAfter (run : List (Event ℕ ℕ)) : State ℕ ℕ (.stamped ℕ) :=
  Machine.after (Machine.guarded step Machine.Any) (.init ℕ ℕ _) run

lemma expires_stamped : Expires (.stamped ℕ) := by
  intro (store : Map JsString (ℕ × ℕ)) now key value now' hnow
  have hset := @Map.get_set_self _ _ _ store key (value, now)
  show ((store.set key (value, now)).get key).bind _ = some value ↔ _
  rw [hset, Option.bind_some]
  dsimp only
  by_cases hle : now' ≤ now + ttl
  · rw [if_pos ⟨hnow, hle⟩]
    exact ⟨fun _ => hle, fun _ => rfl⟩
  · rw [if_neg fun h => hle h.2]
    exact ⟨fun h => (by cases h), fun h => absurd h hle⟩

theorem get_right_iff_slow :
    (stateAfter slow).Right (js "site-key") ↔ (stateAfter slow).Meets (js "site-key") :=
  get_right_iff expires_stamped (.of_after _ (by decide +kernel)) _

/-- A later caller is given the rejection of the first one, and another one calls its own store
function while the first is pending. -/
theorem rejection_cached :
    ((stateAfter failedOnce).get (js "site-key")).1 = ⟨0, false⟩ ∧
      ¬ (stateAfter failedOnce).Right (js "site-key") ∧
      ((stateAfter slow).get (js "site-key")).1 = ⟨1, true⟩ ∧
      ¬ (stateAfter slow).Right (js "site-key") := by
  have hanswers : ((stateAfter failedOnce).get (js "site-key")).1 = ⟨0, false⟩ ∧
      (stateAfter failedOnce).lookups[0]? = some ⟨js "site-key", 0, .rejected 0 1⟩ ∧
      ((stateAfter slow).get (js "site-key")).1 = ⟨1, true⟩ ∧
      (stateAfter slow).lookups[0]? = some ⟨js "site-key", 0, .pending⟩ := by
    decide +kernel
  rcases hanswers with ⟨hfailed, hrejected, hslow, hpending⟩
  refine ⟨hfailed, ?_, hslow, ?_⟩
  · intro hright
    refine hright.not_rejected ⟨js "site-key", 0, .rejected 0 1⟩ ?_ ⟨0, 1, rfl⟩
    rw [hfailed]
    exact hrejected
  · intro hright
    have hcalls := (hright.shares ⟨0, _, ⟨hpending, rfl⟩, .inl rfl⟩).1
    rw [hslow] at hcalls
    cases hcalls

end PointNetwork.CreateCache
