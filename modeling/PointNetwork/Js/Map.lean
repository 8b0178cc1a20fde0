import PointNetwork.Tables

/-!
# `Map` of JavaScript

The entries in the order of their insertion; a key that is set again keeps its place.
-/

namespace Js

variable {K V : Type*}

/-- A `Map`: entries in the order of their first insertion, one for each key. -/
structure Map (K V : Type*) where
  entries : List (K × V)
  keyed : Table.Keyed Prod.fst entries

namespace Map

/-- The map without entries. -/
def empty : Map K V := ⟨[], List.nodup_nil⟩

variable [DecidableEq K]

/-- `map.get(key)`; `none` is `undefined`. -/
def get (map : Map K V) (key : K) : Option V := (Table.find Prod.fst key map.entries).map Prod.snd

/-- `map.has(key)` -/
def has (map : Map K V) (key : K) : Bool := (map.get key).isSome

/-- `map.set(key, value)` -/
def set (map : Map K V) (key : K) (value : V) : Map K V :=
  ⟨Table.upsert Prod.fst (key, value) map.entries, map.keyed.upsert⟩

/-- `map.delete(key)` -/
def delete (map : Map K V) (key : K) : Map K V :=
  ⟨map.entries.filter fun entry => entry.1 ≠ key, map.keyed.filter _⟩

omit [DecidableEq K] in
/-- `map.size` -/
def size (map : Map K V) : ℕ := map.entries.length

variable {map : Map K V} {key key' : K} {value value' : V}

lemma mem_of_get (h : map.get key = some value) : (key, value) ∈ map.entries := by
  obtain ⟨entry, hfind, rfl⟩ := Option.map_eq_some_iff.mp h
  have hkey : entry.1 = key := Table.key_of_find hfind
  rw [← hkey]
  exact Table.mem_of_find hfind

lemma get_of_mem (h : (key, value) ∈ map.entries) : map.get key = some value := by
  have hfind : (Table.find Prod.fst key map.entries).isSome := Table.find_isSome h
  obtain ⟨entry, hentry⟩ := Option.isSome_iff_exists.mp hfind
  have heq : entry = (key, value) :=
    map.keyed.eq (Table.mem_of_find hentry) h (Table.key_of_find hentry)
  rw [get, hentry, heq]
  rfl

/-- What is found under a key is its entry. -/
theorem get_eq_some : map.get key = some value ↔ (key, value) ∈ map.entries :=
  ⟨mem_of_get, get_of_mem⟩

@[simp] theorem get_empty : (empty : Map K V).get key = none := rfl

@[simp] theorem get_set_self : (map.set key value).get key = some value :=
  get_of_mem (Table.mem_upsert_self _ _ _)

/-- The other keys have what they had. -/
theorem get_set_of_ne (h : key' ≠ key) : (map.set key value).get key' = map.get key' := by
  ext found
  rw [get_eq_some, get_eq_some]
  constructor
  · intro hmem
    rcases Table.of_mem_upsert hmem with heq | hold
    · exact absurd (congrArg Prod.fst heq) h
    · exact hold.1
  · intro hmem
    exact Table.mem_upsert_of_ne hmem h

@[simp] theorem get_delete_self : (map.delete key).get key = none := by
  rw [Option.eq_none_iff_forall_ne_some]
  intro found h
  have hmem := List.mem_filter.mp (mem_of_get h)
  simp at hmem

/-- The other keys have what they had. -/
theorem get_delete_of_ne (h : key' ≠ key) : (map.delete key).get key' = map.get key' := by
  ext found
  rw [get_eq_some, get_eq_some]
  show (key', found) ∈ map.entries.filter _ ↔ _
  rw [List.mem_filter]
  simp [h]

/-- What a map without a key finds, the map with it finds too. -/
theorem get_of_get_delete (h : (map.delete key).get key' = some value) :
    key' ≠ key ∧ map.get key' = some value := by
  by_cases hkey : key' = key
  · rw [hkey, get_delete_self] at h
    cases h
  · rw [get_delete_of_ne hkey] at h
    exact ⟨hkey, h⟩

/-- What a map with a key finds is the new value or was found before. -/
theorem of_get_set (h : (map.set key value).get key' = some value') :
    (key' = key ∧ value' = value) ∨ (key' ≠ key ∧ map.get key' = some value') := by
  by_cases hkey : key' = key
  · rw [hkey, get_set_self] at h
    exact .inl ⟨hkey, (Option.some.inj h).symm⟩
  · rw [get_set_of_ne hkey] at h
    exact .inr ⟨hkey, h⟩

/-! ## Keys -/

omit [DecidableEq K] in
/-- `map.keys()` -/
def keys (map : Map K V) : List K := map.entries.map Prod.fst

omit [DecidableEq K] in
lemma nodup_keys : map.keys.Nodup := map.keyed

/-- Nothing is found under a key that is not there. -/
theorem get_eq_none : map.get key = none ↔ key ∉ map.keys := by
  rw [get, Option.map_eq_none_iff]
  exact Table.find_eq_none

theorem has_iff : map.has key = true ↔ key ∈ map.keys := by
  rw [has, Option.isSome_iff_ne_none, ne_eq, get_eq_none, not_not]

/-- A key that is there keeps its place, a new one comes last. -/
theorem keys_set :
    (map.set key value).keys = if key ∈ map.keys then map.keys else map.keys ++ [key] :=
  Table.map_key_upsert Prod.fst (key, value) map.entries

/-- The other keys stay in their order. -/
theorem keys_delete : (map.delete key).keys = map.keys.filter (· ≠ key) := by
  show (map.entries.filter fun entry => entry.1 ≠ key).map Prod.fst = _
  rw [keys, List.filter_map]
  rfl

omit [DecidableEq K] in
@[simp] lemma length_keys : map.keys.length = map.size := List.length_map _

/-! ## Entries and values -/

/-- The map of some entries, no two with one key. -/
def of? (entries : List (K × V)) : Option (Map K V) :=
  if h : (entries.map Prod.fst).Nodup then some ⟨entries, h⟩ else none

lemma of?_entries (map : Map K V) : of? map.entries = some map := dif_pos map.keyed

section Values

variable {W : Type*}

omit [DecidableEq K] in
lemma keyed_mapSnd {entries : List (K × V)} (h : Table.Keyed Prod.fst entries) (f : V → W) :
    Table.Keyed Prod.fst (entries.map fun entry => (entry.1, f entry.2)) := by
  unfold Table.Keyed at h ⊢
  rw [List.map_map]
  exact h

omit [DecidableEq K] in
/-- The values changed, each in its place. -/
def mapValues (f : V → W) (map : Map K V) : Map K W :=
  ⟨map.entries.map fun entry => (entry.1, f entry.2), keyed_mapSnd map.keyed f⟩

/-- The values one by one. -/
theorem get_mapValues (f : V → W) : (map.mapValues f).get key = (map.get key).map f := by
  ext found
  rw [get_eq_some, Option.map_eq_some_iff]
  show (key, found) ∈ map.entries.map _ ↔ _
  rw [List.mem_map]
  constructor
  · intro h
    obtain ⟨entry, hentry, heq⟩ := h
    cases heq
    exact ⟨entry.2, get_of_mem hentry, rfl⟩
  · intro h
    obtain ⟨value, hvalue, rfl⟩ := h
    exact ⟨(key, value), mem_of_get hvalue, rfl⟩

end Values

end Map

end Js
