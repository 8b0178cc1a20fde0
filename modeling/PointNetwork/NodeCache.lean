import PointNetwork.Core
import PointNetwork.Js.Map

/-!
# Caches of promises

`createCache` of `util/cache.ts` over the package `node-cache`, which is a parameter: a store of entries
that expire. What the code relies on is stated as laws. The promises are told apart by their number.
-/

namespace PointNetwork

open Js

/-- `ttl` of `defaultOptions`, in milliseconds. -/
def ttl : ℕ := 20 * 1000

/-- A cache of `node-cache` with `stdTTL` set to `ttl`, for values of type `V`. -/
structure NodeCache (V : Type) where
  Store : Type
  empty : Store
  /-- What is there at a time. -/
  get : Store → ℕ → JsString → Option V
  /-- The new store, at a time. -/
  set : Store → ℕ → JsString → V → Store
  del : Store → JsString → Store
  keys : Store → List JsString
  get_empty : ∀ now key, get empty now key = none
  get_set : ∀ {store now key value now' found}, get (set store now key value) now' key = some found →
    found = value
  get_set_live : ∀ {store now key value now'}, now ≤ now' → now' < now + ttl →
    get (set store now key value) now' key = some value
  get_set_ne : ∀ {store now key value now' key'}, key' ≠ key →
    get (set store now key value) now' key' = get store now' key'
  get_del : ∀ {store key now}, get (del store key) now key = none
  get_del_ne : ∀ {store key now key'}, key' ≠ key →
    get (del store key) now key' = get store now key'
  mem_keys : ∀ {store now key value}, get store now key = some value → key ∈ keys store

namespace NodeCache

variable {V : Type} {cache : NodeCache V} {store : cache.Store} {now now' : ℕ} {key key' : JsString}
  {value found : V}

/-- `delStartWith`: the keys that contain the text are deleted, wherever it stands in them. -/
def delStartWith (cache : NodeCache V) (store : cache.Store) (startStr : JsString) : cache.Store :=
  if startStr.isEmpty then store
  else ((cache.keys store).filter fun key => startStr <:+: key).foldl cache.del store

/-- After a deletion only entries of other keys are found, as before. -/
lemma of_get_del (h : cache.get (cache.del store key) now key' = some found) :
    key' ≠ key ∧ cache.get store now key' = some found := by
  by_cases hkey : key' = key
  · rw [hkey, cache.get_del] at h
    cases h
  · rw [cache.get_del_ne hkey] at h
    exact ⟨hkey, h⟩

/-- The same after several deletions. -/
lemma of_get_foldl_del {keys : List JsString}
    (h : cache.get (keys.foldl cache.del store) now key = some found) :
    key ∉ keys ∧ cache.get store now key = some found := by
  induction keys generalizing store with
  | nil => exact ⟨List.not_mem_nil, h⟩
  | cons k keys ih =>
    obtain ⟨hnot, hget⟩ := ih h
    obtain ⟨hne, hold⟩ := of_get_del hget
    refine ⟨?_, hold⟩
    rw [List.mem_cons, not_or]
    exact ⟨hne, hnot⟩

/-- An entry that is left was there, and its key does not contain the text. -/
theorem of_get_delStartWith {startStr : JsString} (hne : startStr ≠ [])
    (h : cache.get (cache.delStartWith store startStr) now key = some found) :
    ¬ startStr <:+: key ∧ cache.get store now key = some found := by
  unfold delStartWith at h
  rw [if_neg (by simpa using hne)] at h
  obtain ⟨hnot, hold⟩ := of_get_foldl_del h
  refine ⟨?_, hold⟩
  intro hpart
  exact hnot (List.mem_filter.mpr ⟨cache.mem_keys hold, decide_eq_true hpart⟩)

/-- An entry after `set` is the new one or was there under another key. -/
lemma of_get_set (h : cache.get (cache.set store now key value) now' key' = some found) :
    (key' = key ∧ found = value) ∨ (key' ≠ key ∧ cache.get store now' key' = some found) := by
  by_cases hkey : key' = key
  · rw [hkey] at h
    exact .inl ⟨hkey, cache.get_set h⟩
  · rw [cache.get_set_ne hkey] at h
    exact .inr ⟨hkey, h⟩

/-- A cache whose entries carry the time at which they were set. -/
def stamped (V : Type) : NodeCache V where
  Store := Map JsString (V × ℕ)
  empty := .empty
  get store now key := (store.get key).bind fun (value, time) =>
    if time ≤ now ∧ now ≤ time + ttl then some value else none
  set store now key value := store.set key (value, now)
  del store key := store.delete key
  keys store := store.entries.map Prod.fst
  get_empty _ _ := rfl
  get_set := by
    intro store now key value now' found h
    rw [Map.get_set_self] at h
    simp only [Option.bind_some] at h
    split at h
    · exact (Option.some.inj h).symm
    · cases h
  get_set_live := by
    intro store now key value now' hle hlt
    rw [Map.get_set_self]
    exact if_pos ⟨hle, by omega⟩
  get_set_ne := by
    intro store now key value now' key' hne
    rw [Map.get_set_of_ne hne]
  get_del := by
    intro store key now
    rw [Map.get_delete_self]
    rfl
  get_del_ne := by
    intro store key now key' hne
    rw [Map.get_delete_of_ne hne]
  mem_keys := by
    intro store now key value h
    obtain ⟨entry, hentry, -⟩ := Option.bind_eq_some_iff.mp h
    exact List.mem_map.mpr ⟨_, Map.mem_of_get hentry, rfl⟩

end NodeCache

end PointNetwork
