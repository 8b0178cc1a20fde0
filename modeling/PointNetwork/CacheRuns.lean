import PointNetwork.CacheFactory
import PointNetwork.Machine
import PointNetwork.TtlMap

/-!
# Runs of a bounded cache

A `CacheFactory` with a limit beside a `TtlMap`: both do the same operations, and find the same.
They part where a key that is there is added to a full cache: `add` then drops the oldest entry
before it sets the new one, though no room is needed. A time of expiry of 0 never passes.
-/

namespace PointNetwork.CacheRuns

open Js Machine

variable {K V : Type*}

/-- The operations on a cache, with the times at which they look at the clock. -/
inductive Op (K V : Type*)
  | add (now : ℕ) (k : K) (v : V)
  | get (now : ℕ) (k : K)
  | has (now : ℕ) (k : K)
  | rm (k : K)
  | clear (nows : List ℕ)
  | drop

/-- The cache, what it is to be, and the last reading of the clock. -/
structure State (K V : Type*) where
  cache : CacheFactory K V
  map : TtlMap K V
  now : ℕ

/-- An empty cache beside an empty map. -/
def State.init (limit ttlMs : ℕ) : State K V := ⟨.new ttlMs (some limit), .empty, 0⟩

/-- The last of the readings, if none goes back. -/
def ticks : ℕ → List ℕ → Option ℕ
  | now, [] => some now
  | now, next :: nows => if now ≤ next then ticks next nows else none

variable [DecidableEq K]

/-- The cache and the map look for a key. -/
def State.look (s : State K V) (now : ℕ) (k : K) : State K V :=
  ⟨s.cache.checkExpired now k, s.map.purge now k, now⟩

/-- The same operation on the cache and on the map. The clock never goes back. -/
def step (limit ttlMs : ℕ) (s : State K V) : Op K V → Option (State K V)
  | .add now k v =>
    if s.now ≤ now then some ⟨s.cache.add now k v, s.map.add limit (now + ttlMs) k v, now⟩ else none
  | .get now k =>
    if s.now ≤ now then some ⟨(s.cache.get now k).2, s.map.purge now k, now⟩ else none
  | .has now k =>
    if s.now ≤ now then some ⟨(s.cache.has now k).2, s.map.purge now k, now⟩ else none
  | .rm k => some { s with cache := (s.cache.rm k).2, map := s.map.remove k }
  | .clear nows =>
    if nows.length = s.cache.size then
      (ticks s.now nows).map fun now =>
        ⟨s.cache.clear nows,
          (s.cache.cache.keys.zip nows).foldl (fun map check => map.purge check.2 check.1) s.map,
          now⟩
    else none
  | .drop => some { s with cache := s.cache.drop, map := .empty }

/-! ## The cache does as the map -/

/-- The cache has the keys that take room, each with the latest addition; the others have no
addition that could be found. -/
structure Refines (limit ttlMs : ℕ) (s : State K V) : Prop where
  limit_eq : s.cache.limit = some limit
  ttlMs_eq : s.cache.ttlMs = ttlMs
  keys_eq : s.cache.cache.keys = s.map.order
  length_le : s.map.order.length ≤ limit
  found : ∀ k e, s.cache.cache.get k = some e → s.map.latest k = some (e.exp, e.entry) ∧ e.exp ≠ 0
  gone : ∀ k, k ∉ s.map.order → ∀ entry, s.map.latest k = some entry → entry.1 < s.now

lemma refines_init (limit ttlMs : ℕ) (hlimit : 1 ≤ limit) :
    Refines limit ttlMs (State.init limit ttlMs : State K V) where
  limit_eq := by
    show (some limit).filter (· ≠ 0) = some limit
    rw [Option.filter_some, if_pos (by simp; omega)]
  ttlMs_eq := rfl
  keys_eq := rfl
  length_le := Nat.zero_le limit
  found k e h := by cases h
  gone k _ entry h := by cases h

/-- A key without the first one, put at the end if it was this one: the same just for a single
key. -/
lemma tail_append_eq_iff {order : List K} {k : K} (hnodup : order.Nodup) (hmem : k ∈ order) :
    (if k ∈ order.tail then order.tail else order.tail ++ [k]) = order ↔ order.length < 2 := by
  cases order with
  | nil => cases hmem
  | cons oldest order =>
    rw [List.nodup_cons] at hnodup
    rw [List.tail_cons]
    cases order with
    | nil =>
      rw [List.mem_singleton.mp hmem]
      simp
    | cons next order =>
      -- The first key is not the one that comes next.
      have hne : ∀ rest, next :: rest ≠ oldest :: next :: order := by
        intro rest heq
        apply hnodup.1
        rw [← (List.cons.inj heq).1]
        exact List.mem_cons_self
      refine iff_of_false ?_ (by simp only [List.length_cons]; omega)
      split
      · exact hne _
      · exact hne _

section Steps

variable {limit ttlMs : ℕ} {s : State K V} (hs : Refines limit ttlMs s)

include hs

/-- What the cache has is what the map has, with a time that has not passed. -/
lemma Refines.look_of_get {k : K} {e : CacheEntry V} {now : ℕ} (h : s.cache.cache.get k = some e) :
    s.map.look now k = if now ≤ e.exp then some e.entry else none := by
  rw [TtlMap.look, (hs.found k e h).1]
  rfl

/-- A key that the cache does not have is not found in the map either. -/
lemma Refines.look_of_get_none {k : K} {now : ℕ} (hnow : s.now ≤ now)
    (h : s.cache.cache.get k = none) : s.map.look now k = none := by
  rw [Map.get_eq_none, hs.keys_eq] at h
  by_contra hsome
  obtain ⟨v, hv⟩ := Option.ne_none_iff_exists'.mp hsome
  obtain ⟨entry, hentry, hle⟩ := Option.bind_eq_some_iff.mp hv
  have hlt := hs.gone k h entry hentry
  rw [if_neg (by omega)] at hle
  cases hle

/-- The cache loses a key that is over when the map does. -/
lemma Refines.keys_checkExpired {now : ℕ} (hnow : s.now ≤ now) (k : K) :
    (s.cache.checkExpired now k).cache.keys = (s.map.purge now k).order := by
  unfold CacheFactory.checkExpired TtlMap.purge
  cases hget : s.cache.cache.get k with
  | none =>
    rw [hs.look_of_get_none hnow hget]
    show s.cache.cache.keys = s.map.order.filter _
    rw [Map.get_eq_none] at hget
    rw [← hs.keys_eq, eq_comm, List.filter_eq_self]
    intro key hkey
    apply decide_eq_true
    rintro rfl
    exact hget hkey
  | some e =>
    rw [hs.look_of_get hget]
    obtain ⟨_, hexp⟩ := hs.found k e hget
    by_cases hle : now ≤ e.exp
    · rw [if_pos hle]
      show (if e.exp ≠ 0 ∧ e.exp < now then _ else s.cache).cache.keys = s.map.order
      rw [if_neg (by omega)]
      exact hs.keys_eq
    · rw [if_neg hle]
      show (if e.exp ≠ 0 ∧ e.exp < now then _ else s.cache).cache.keys = s.map.order.filter _
      rw [if_pos ⟨hexp, by omega⟩, ← hs.keys_eq]
      exact Map.keys_delete

/-- A key that the map does not find has no addition that could still be found. -/
lemma Refines.purge_gone {now : ℕ} (hnow : s.now ≤ now) {k key : K}
    (hmem : key ∉ (s.map.purge now k).order) {entry : ℕ × V}
    (hentry : s.map.latest key = some entry) : entry.1 < now := by
  unfold TtlMap.purge at hmem
  split at hmem
  · have hlt := hs.gone key hmem entry hentry
    omega
  · rename_i hlook
    by_cases hkey : key = k
    · rw [hkey] at hentry
      by_contra hle
      rw [TtlMap.look_of_le hentry (by omega)] at hlook
      cases hlook
    · have hold : key ∉ s.map.order := by
        intro hold
        exact hmem (List.mem_filter.mpr ⟨hold, decide_eq_true hkey⟩)
      have hlt := hs.gone key hold entry hentry
      omega

lemma Refines.look {now : ℕ} (hnow : s.now ≤ now) (k : K) : Refines limit ttlMs (s.look now k) where
  limit_eq := by
    show (s.cache.checkExpired now k).limit = _
    rw [CacheFactory.limit_checkExpired, hs.limit_eq]
  ttlMs_eq := by
    show (s.cache.checkExpired now k).ttlMs = _
    rw [CacheFactory.ttlMs_checkExpired, hs.ttlMs_eq]
  keys_eq := hs.keys_checkExpired hnow k
  length_le := by
    show (s.map.purge now k).order.length ≤ limit
    unfold TtlMap.purge
    split
    · exact hs.length_le
    · exact Nat.le_trans (List.length_filter_le _ _) hs.length_le
  found key e h := by
    have hold := (CacheFactory.of_get_checkExpired h).1
    show (s.map.purge now k).latest key = _ ∧ _
    rw [TtlMap.latest_purge]
    exact hs.found key e hold
  gone key hmem entry hentry := by
    rw [show (s.look now k).map.latest = s.map.latest from TtlMap.latest_purge] at hentry
    exact hs.purge_gone hnow hmem hentry

/-- The removal of a key is the same on both sides. -/
lemma Refines.remove (k : K) :
    Refines limit ttlMs { s with cache := (s.cache.rm k).2, map := s.map.remove k } where
  limit_eq := hs.limit_eq
  ttlMs_eq := hs.ttlMs_eq
  keys_eq := by
    show (s.cache.cache.delete k).keys = s.map.order.filter _
    rw [Map.keys_delete, hs.keys_eq]
  length_le := Nat.le_trans (List.length_filter_le _ _) hs.length_le
  found key e h := by
    obtain ⟨hne, hold⟩ := CacheFactory.of_get_rm h
    show Function.update s.map.latest k none key = _ ∧ _
    rw [Function.update_of_ne hne]
    exact hs.found key e hold
  gone key hmem entry hentry := by
    rw [show (s.map.remove k).latest = Function.update s.map.latest k none from rfl] at hentry
    by_cases hkey : key = k
    · rw [hkey, Function.update_self] at hentry
      cases hentry
    · rw [Function.update_of_ne hkey] at hentry
      apply hs.gone key _ entry hentry
      intro hold
      exact hmem (List.mem_filter.mpr ⟨hold, decide_eq_true hkey⟩)

lemma Refines.drop : Refines limit ttlMs { s with cache := s.cache.drop, map := .empty } where
  limit_eq := hs.limit_eq
  ttlMs_eq := hs.ttlMs_eq
  keys_eq := rfl
  length_le := Nat.zero_le limit
  found key e h := by cases h
  gone key _ entry h := by cases h

lemma Refines.nodup : s.map.order.Nodup := by
  rw [← hs.keys_eq]
  exact s.cache.cache.nodup_keys

/-- The map keeps a key that is there in its place. The cache does, too, unless it is full, and not
of this key alone. -/
lemma Refines.keys_add_iff (now exp : ℕ) (k : K) (v : V) :
    (s.cache.add now k v).cache.keys = (s.map.add limit exp k v).order ↔
      ¬ (k ∈ s.map.order ∧ s.map.order.length = limit ∧ 2 ≤ limit) := by
  have hfull : s.cache.limit = some s.cache.cache.size ↔ s.map.order.length = limit := by
    rw [hs.limit_eq, ← Map.length_keys, hs.keys_eq, Option.some_inj, eq_comm]
  rw [CacheFactory.keys_add, TtlMap.order_add]
  simp only [hfull, hs.keys_eq]
  by_cases hmem : k ∈ s.map.order
  · rw [if_pos hmem]
    by_cases hlen : s.map.order.length = limit
    · rw [if_pos hlen, tail_append_eq_iff hs.nodup hmem, hlen]
      constructor
      · intro hlt h
        omega
      · intro h
        by_contra hge
        exact h ⟨hmem, rfl, by omega⟩
    · rw [if_neg hlen, if_pos hmem]
      exact iff_of_true rfl fun h => hlen h.2.1
  · rw [if_neg hmem]
    have hroom : k ∉ if s.map.order.length = limit then s.map.order.tail else s.map.order := by
      split
      · exact fun h => hmem (List.mem_of_mem_tail h)
      · exact hmem
    rw [if_neg hroom]
    exact iff_of_true rfl fun h => hmem h.1

/-- An addition is the same on both sides, unless it drops another entry for a key that is there. -/
lemma Refines.add {now : ℕ} (hlimit : 1 ≤ limit) (hnow : s.now ≤ now) {k : K} (v : V)
    (hroom : ¬ (k ∈ s.map.order ∧ s.map.order.length = limit ∧ 2 ≤ limit))
    (hexp : now + ttlMs ≠ 0) :
    Refines limit ttlMs ⟨s.cache.add now k v, s.map.add limit (now + ttlMs) k v, now⟩ where
  limit_eq := by
    rw [← hs.limit_eq]
    exact CacheFactory.limit_add
  ttlMs_eq := by
    rw [← hs.ttlMs_eq]
    exact CacheFactory.ttlMs_add
  keys_eq := (hs.keys_add_iff now _ k v).mpr hroom
  length_le := TtlMap.length_add_le hlimit hs.length_le
  found key e h := by
    rcases CacheFactory.of_get_add h with ⟨rfl, rfl⟩ | ⟨hne, hold⟩
    · rw [hs.ttlMs_eq]
      exact ⟨TtlMap.latest_add_self, hexp⟩
    -- an older entry that the cache still has is in the map too
    · have hmem : key ∈ (s.map.add limit (now + ttlMs) k v).order := by
        rw [← (hs.keys_add_iff now _ k v).mpr hroom, ← Map.has_iff, Map.has]
        rw [show (s.cache.add now k v).cache.get key = some e from h]
        rfl
      show (s.map.add limit (now + ttlMs) k v).latest key = _ ∧ _
      rw [TtlMap.latest_add_of_mem hs.nodup hne hmem]
      exact hs.found key e hold
  gone key hmem entry hentry := by
    have hne : key ≠ k := by
      rintro rfl
      apply hmem
      show key ∈ (s.map.add limit (now + ttlMs) key v).order
      rw [TtlMap.order_add]
      split
      · assumption
      · exact List.mem_append_right _ (List.mem_singleton_self key)
    -- a key that has just left the map has left no entry behind
    have hold : key ∉ s.map.order := by
      intro hold
      have hnext : key ∈ (s.map.add limit (now + ttlMs) k v).order ∨
          (s.map.add limit (now + ttlMs) k v).latest key = none := TtlMap.mem_order_add hne hold
      rcases hnext with h | h
      · exact hmem h
      · rw [h] at hentry
        cases hentry
    rw [TtlMap.latest_add_of_ne hne] at hentry
    split at hentry
    · cases hentry
    · have hlt := hs.gone key hold entry hentry
      show entry.1 < now
      omega

/-- The lookups of `clear`, one after the other. -/
lemma Refines.looks {checks : List (K × ℕ)} {now : ℕ}
    (hticks : ticks s.now (checks.map Prod.snd) = some now) :
    Refines limit ttlMs
      ⟨checks.foldl (fun cache check => cache.checkExpired check.2 check.1) s.cache,
        checks.foldl (fun map check => map.purge check.2 check.1) s.map, now⟩ := by
  induction checks generalizing s with
  | nil =>
    cases hticks
    exact hs
  | cons check checks ih =>
    rw [List.map_cons, ticks] at hticks
    obtain ⟨hle, hticks⟩ := Option.ite_none_right_eq_some.mp hticks
    exact ih (hs.look hle check.1) hticks

/-- `get` returns what the map has. -/
lemma Refines.get_eq {now : ℕ} (hnow : s.now ≤ now) (k : K) :
    (s.cache.get now k).1 = s.map.look now k := by
  have hmem : k ∈ (s.cache.checkExpired now k).cache.keys ↔ k ∈ (s.map.purge now k).order := by
    rw [hs.keys_checkExpired hnow]
  show ((s.cache.checkExpired now k).cache.get k).map CacheEntry.entry = _
  cases hget : (s.cache.checkExpired now k).cache.get k with
  | none =>
    have hgone : ∀ entry, s.map.latest k = some entry → entry.1 < now := by
      intro entry hentry
      rw [Map.get_eq_none, hmem] at hget
      exact hs.purge_gone hnow hget hentry
    cases hlatest : s.map.latest k with
    | none =>
      rw [TtlMap.look, hlatest]
      rfl
    | some entry => rw [TtlMap.look_eq_none_of_lt hlatest (hgone entry hlatest), Option.map_none]
  | some e =>
    obtain ⟨hold, hlive⟩ := CacheFactory.of_get_checkExpired hget
    rw [hs.look_of_get hold, if_pos (hlive rfl (hs.found k e hold).2), Option.map_some]

/-- `has` says whether the map has it. -/
lemma Refines.has_eq {now : ℕ} (hnow : s.now ≤ now) (k : K) :
    (s.cache.has now k).1 = (s.map.look now k).isSome := by
  rw [← hs.get_eq hnow]
  exact Option.isSome_map.symm

end Steps

/-! ## Runs -/

/-- A key that is there is not added to a full cache of several entries. -/
def Roomy (s : State K V) : Op K V → Prop
  | .add _ k _ =>
    ¬ (s.cache.cache.has k = true ∧ s.cache.limit = some s.cache.size ∧ 2 ≤ s.cache.size)
  | _ => True

/-- Moreover, no time of expiry is 0. -/
def Spares (s : State K V) (op : Op K V) : Prop :=
  Roomy s op ∧
    match op with
    | .add now _ _ => now + s.cache.ttlMs ≠ 0
    | _ => True

instance (s : State K V) (op : Op K V) : Decidable (Roomy s op) :=
  match op with
  | .add _ _ _ => inferInstanceAs (Decidable (¬ _))
  | .get _ _ | .has _ _ | .rm _ | .clear _ | .drop => isTrue trivial

instance (s : State K V) (op : Op K V) : Decidable (Spares s op) :=
  match op with
  | .add _ _ _ => inferInstanceAs (Decidable (_ ∧ _ ≠ _))
  | .get _ _ | .has _ _ | .rm _ | .clear _ | .drop => inferInstanceAs (Decidable (_ ∧ True))

/-- The cache finds what the map finds, and is not larger than it may be. -/
structure Agrees (limit : ℕ) (s : State K V) : Prop where
  size_le : s.cache.size ≤ limit
  get_eq : ∀ now k, s.now ≤ now → (s.cache.get now k).1 = s.map.look now k
  has_eq : ∀ now k, s.now ≤ now → (s.cache.has now k).1 = (s.map.look now k).isSome

/-- Why a key leaves the cache: it is the oldest, and room is needed for a new key; or it is found
expired or removed. -/
def Leaves (limit : ℕ) (s s' : State K V) (key : K) : Op K V → Prop
  | .add _ k _ =>
    s.cache.cache.has k = false ∧ s.cache.size = limit ∧ s.map.order.head? = some key
  | .rm k => key = k
  | .drop => True
  | .get _ _ | .has _ _ | .clear _ => s'.map.look s'.now key = none

section Runs

variable {limit ttlMs : ℕ} {s s' : State K V}

/-- What the condition says of the map. -/
lemma Refines.roomy_iff (hs : Refines limit ttlMs s) (now : ℕ) (k : K) (v : V) :
    Roomy s (.add now k v) ↔
      ¬ (k ∈ s.map.order ∧ s.map.order.length = limit ∧ 2 ≤ limit) := by
  show ¬ (s.cache.cache.has k = true ∧ s.cache.limit = some s.cache.cache.size ∧
    2 ≤ s.cache.cache.size) ↔ _
  rw [Map.has_iff, hs.limit_eq, ← Map.length_keys, hs.keys_eq, Option.some_inj]
  constructor
  · rintro h ⟨hmem, hlen, htwo⟩
    exact h ⟨hmem, hlen.symm, by omega⟩
  · rintro h ⟨hmem, hlen, htwo⟩
    exact h ⟨hmem, hlen.symm, by omega⟩

lemma Refines.step (hlimit : 1 ≤ limit) (hs : Refines limit ttlMs s) {op : Op K V}
    (hok : Spares s op) (hstep : step limit ttlMs s op = some s') : Refines limit ttlMs s' := by
  cases op with
  | add now k v =>
    obtain ⟨hnow, hs'⟩ := Option.ite_none_right_eq_some.mp hstep
    cases hs'
    have hexp : now + s.cache.ttlMs ≠ 0 := hok.2
    rw [hs.ttlMs_eq] at hexp
    exact hs.add hlimit hnow v ((hs.roomy_iff now k v).mp hok.1) hexp
  | get now k =>
    obtain ⟨hnow, hs'⟩ := Option.ite_none_right_eq_some.mp hstep
    cases hs'
    exact hs.look hnow k
  | has now k =>
    obtain ⟨hnow, hs'⟩ := Option.ite_none_right_eq_some.mp hstep
    cases hs'
    exact hs.look hnow k
  | rm k =>
    cases hstep
    exact hs.remove k
  | clear nows =>
    obtain ⟨hlength, hstep⟩ := Option.ite_none_right_eq_some.mp hstep
    obtain ⟨now, hticks, rfl⟩ := Option.map_eq_some_iff.mp hstep
    have hzip : (s.cache.cache.keys.zip nows).map Prod.snd = nows := by
      apply List.map_snd_zip
      rw [hlength, Map.length_keys]
      exact Nat.le_refl _
    rw [← hzip] at hticks
    exact hs.looks hticks
  | drop =>
    cases hstep
    exact hs.drop

/-- A cache that refines the map agrees with it. -/
lemma Refines.agrees (hs : Refines limit ttlMs s) : Agrees limit s where
  size_le := by
    show s.cache.cache.size ≤ limit
    rw [← Map.length_keys, hs.keys_eq]
    exact hs.length_le
  get_eq _ k hnow := hs.get_eq hnow k
  has_eq _ k hnow := hs.has_eq hnow k

/-- A key that takes no room is not found. -/
lemma Refines.look_eq_none (hs : Refines limit ttlMs s) {key : K}
    (hmem : s.cache.cache.has key = false) : s.map.look s.now key = none := by
  apply hs.look_of_get_none (Nat.le_refl _)
  rw [← Option.not_isSome_iff_eq_none]
  exact Bool.eq_false_iff.mp hmem

/-- An entry that an addition drops was the oldest of a full map. -/
lemma Refines.leaves_add (hs : Refines limit ttlMs s) {now : ℕ} {k key : K} {v : V}
    (hok : Roomy s (.add now k v)) (hbefore : s.cache.cache.has key = true)
    (hafter : (s.cache.add now k v).cache.has key = false) :
    Leaves limit s s' key (.add now k v) := by
  have hkeys := (hs.keys_add_iff now 0 k v).mpr ((hs.roomy_iff now k v).mp hok)
  rw [Map.has_iff, hs.keys_eq] at hbefore
  have hgone : key ∉ (s.map.add limit 0 k v).order := by
    rw [← hkeys, ← Map.has_iff, hafter]
    exact Bool.false_ne_true
  rw [TtlMap.order_add] at hgone
  by_cases hmem : k ∈ s.map.order
  · rw [if_pos hmem] at hgone
    exact absurd hbefore hgone
  · rw [if_neg hmem] at hgone
    by_cases hfull : s.map.order.length = limit
    · rw [if_pos hfull] at hgone
      refine ⟨?_, ?_, ?_⟩
      · rw [← Bool.not_eq_true, Map.has_iff, hs.keys_eq]
        exact hmem
      · show s.cache.cache.size = limit
        rw [← Map.length_keys, hs.keys_eq]
        exact hfull
      · -- Of the old keys only the first is not in the rest.
        cases horder : s.map.order with
        | nil =>
          rw [horder] at hbefore
          cases hbefore
        | cons oldest order =>
          rw [horder] at hbefore hgone
          rcases List.mem_cons.mp hbefore with rfl | hrest
          · rfl
          · exact absurd (List.mem_append_left _ hrest) hgone
    · rw [if_neg hfull] at hgone
      exact absurd (List.mem_append_left _ hbefore) hgone

/-- While no key that is there is added to a full cache (of several entries), the cache finds what a
bounded map finds, and a key leaves it only as it leaves the map. An addition that does not meet the
condition changes the keys or their order although its key is there. -/
theorem refines_of_spares (hlimit : 1 ≤ limit)
    (h : Reach (CacheRuns.step limit ttlMs) Spares (State.init limit ttlMs) s) :
    Agrees limit s ∧
      ∀ op s', CacheRuns.step limit ttlMs s op = some s' →
        (Spares s op → ∀ key, s.cache.cache.has key = true → s'.cache.cache.has key = false →
          Leaves limit s s' key op) ∧
        (¬ Roomy s op → s'.cache.cache.keys ≠ s'.map.order) := by
  have hs : Refines limit ttlMs s :=
    h.invariant (refines_init limit ttlMs hlimit) fun _ _ _ hs hok => hs.step hlimit hok
  refine ⟨hs.agrees, ?_⟩
  intro op s' hstep
  constructor
  · intro hok key hbefore hafter
    have hs' := hs.step hlimit hok hstep
    have hlook := hs'.look_eq_none hafter
    cases op with
    | add now k v =>
      obtain ⟨_, heq⟩ := Option.ite_none_right_eq_some.mp hstep
      cases heq
      exact hs.leaves_add hok.1 hbefore hafter
    -- `rm` takes away no other key
    | rm k =>
      cases hstep
      by_contra hne
      have hkeys : key ∈ (s.cache.cache.delete k).keys := by
        rw [Map.keys_delete, List.mem_filter]
        exact ⟨Map.has_iff.mp hbefore, decide_eq_true hne⟩
      exact absurd (Map.has_iff.mpr hkeys) (Bool.eq_false_iff.mp hafter)
    | get now k => exact hlook
    | has now k => exact hlook
    | clear nows => exact hlook
    | drop => trivial
  -- without room the cache and the map drop different keys
  · intro hfull
    cases op with
    | add now k v =>
      obtain ⟨_, heq⟩ := Option.ite_none_right_eq_some.mp hstep
      cases heq
      intro hkeys
      exact hfull ((hs.roomy_iff now k v).mpr ((hs.keys_add_iff now _ k v).mp hkeys))
    | get now k => exact absurd trivial hfull
    | has now k => exact absurd trivial hfull
    | rm k => exact absurd trivial hfull
    | clear nows => exact absurd trivial hfull
    | drop => exact absurd trivial hfull

/-- Of three keys, the first makes room for the third. -/
theorem refines_of_spares_three :
    Agrees 2 (after (guarded (CacheRuns.step 2 200) Spares) (State.init 2 200 : State ℕ ℕ)
      [.add 1000 1 10, .add 1001 2 20, .get 1002 1, .add 1003 3 30, .clear [1004, 1005]]) :=
  (refines_of_spares (by decide) (.of_after _ (by decide +kernel))).1

/-- A key is added again to a full cache: the other one is not found any more. -/
theorem add_again_evicts :
    ∃ s s' : State ℕ ℕ, Reach (CacheRuns.step 2 200) Any (State.init 2 200) s ∧
      CacheRuns.step 2 200 s (.add 1002 2 21) = some s' ∧ s.cache.cache.has 2 = true ∧
        s.cache.cache.has 1 = true ∧ s'.cache.cache.has 1 = false ∧ ¬ Agrees 2 s' := by
  refine ⟨after (guarded (CacheRuns.step 2 200) Any) (State.init 2 200)
    [.add 1000 1 10, .add 1001 2 20], _, .of_after _ (by decide +kernel), rfl, by decide +kernel,
    by decide +kernel, by decide +kernel, ?_⟩
  intro h
  have hget := h.get_eq 1002 1 (by decide +kernel)
  revert hget
  decide +kernel

end Runs

end PointNetwork.CacheRuns
