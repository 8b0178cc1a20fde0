import PointNetwork.Js.Map

/-!
# Caches with an expiration time

`CacheFactory` of `util/cacheFactory.ts`. An entry that expired is removed when its key is looked
up. The time, that of `Date.now()`, is an argument of the methods that read it.
-/

namespace PointNetwork

open Js

variable {K V : Type*}

/-- `{exp: number; entry: V}` -/
structure CacheEntry (V : Type*) where
  exp : ℕ
  entry : V

/-- No `limit` is `Infinity`. -/
structure CacheFactory (K V : Type*) where
  ttlMs : ℕ
  cache : Map K (CacheEntry V)
  limit : Option ℕ

namespace CacheFactory

/-- The constructor; a limit of 0 is none. -/
def new (ttlMs : ℕ) (limit : Option ℕ) : CacheFactory K V :=
  ⟨ttlMs, .empty, limit.filter (· ≠ 0)⟩

variable [DecidableEq K]

/-- Removes the entry of the key when its time is over. An entry whose expiry is zero stays. -/
def checkExpired (self : CacheFactory K V) (now : ℕ) (k : K) : CacheFactory K V :=
  match self.cache.get k with
  | some id => if id.exp ≠ 0 ∧ id.exp < now then { self with cache := self.cache.delete k } else self
  | none => self

/-- Removes the entry that has been added first. -/
def dropFirst (self : CacheFactory K V) : CacheFactory K V :=
  match self.cache.entries with
  | [] => self
  | (k, _) :: _ => { self with cache := self.cache.delete k }

/-- Adds an entry, after the first one has been removed when the cache is full. -/
def add (self : CacheFactory K V) (now : ℕ) (k : K) (v : V) : CacheFactory K V :=
  let dropped := if self.limit = some self.cache.size then self.dropFirst else self
  { dropped with cache := dropped.cache.set k ⟨now + self.ttlMs, v⟩ }

/-- What is found, and the cache after that. -/
def get (self : CacheFactory K V) (now : ℕ) (k : K) : Option V × CacheFactory K V :=
  let checked := self.checkExpired now k
  ((checked.cache.get k).map CacheEntry.entry, checked)

/-- Whether the key is there, and the cache after that. -/
def has (self : CacheFactory K V) (now : ℕ) (k : K) : Bool × CacheFactory K V :=
  let checked := self.checkExpired now k
  (checked.cache.has k, checked)

/-- Whether the key was there, and the cache without it. -/
def rm (self : CacheFactory K V) (k : K) : Bool × CacheFactory K V :=
  (self.cache.has k, { self with cache := self.cache.delete k })

omit [DecidableEq K] in
/-- May count entries that have expired. -/
def size (self : CacheFactory K V) : ℕ := self.cache.size

/-- `nows` are the times at which the entries are checked, in their order. -/
def clear (self : CacheFactory K V) (nows : List ℕ) : CacheFactory K V :=
  (self.cache.keys.zip nows).foldl (fun cache check => cache.checkExpired check.2 check.1) self

omit [DecidableEq K] in
/-- Removes all entries. -/
def drop (self : CacheFactory K V) : CacheFactory K V := { self with cache := .empty }

/-! ## What the operations keep -/

variable {self : CacheFactory K V} {now : ℕ} {k key : K} {v : V} {e : CacheEntry V}

@[simp] lemma get_new (ttlMs : ℕ) (limit : Option ℕ) :
    (new ttlMs limit : CacheFactory K V).cache.get k = none := Map.get_empty

/-- An entry that is left was there, and has not expired if its key was looked up. -/
theorem of_get_checkExpired (h : (self.checkExpired now k).cache.get key = some e) :
    self.cache.get key = some e ∧ (key = k → e.exp ≠ 0 → now ≤ e.exp) := by
  unfold checkExpired at h
  split at h
  · rename_i id hid
    split at h
    · obtain ⟨hne, hget⟩ := Map.get_of_get_delete h
      exact ⟨hget, fun heq => absurd heq hne⟩
    · rename_i hlive
      refine ⟨h, ?_⟩
      rintro rfl hexp
      obtain rfl : id = e := Option.some.inj (hid.symm.trans h)
      by_contra hlt
      exact hlive ⟨hexp, by omega⟩
  · rename_i hnone
    refine ⟨h, ?_⟩
    rintro rfl
    rw [hnone] at h
    cases h

@[simp] lemma limit_checkExpired : (self.checkExpired now k).limit = self.limit := by
  unfold checkExpired
  split
  · split <;> rfl
  · rfl

@[simp] lemma ttlMs_checkExpired : (self.checkExpired now k).ttlMs = self.ttlMs := by
  unfold checkExpired
  split
  · split <;> rfl
  · rfl

/-- What `get` finds was there, and has not expired. -/
theorem of_get (h : (self.get now k).1 = some v) :
    ∃ e, self.cache.get k = some e ∧ e.entry = v ∧ (e.exp ≠ 0 → now ≤ e.exp) := by
  obtain ⟨e, he, hv⟩ := Option.map_eq_some_iff.mp h
  obtain ⟨hget, hlive⟩ := of_get_checkExpired he
  exact ⟨e, hget, hv, hlive rfl⟩

/-- What `get` finds is the entry of its key, unless this has expired. -/
theorem get_fst : (self.get now k).1 = (self.cache.get k).bind fun e =>
    if e.exp ≠ 0 ∧ e.exp < now then none else some e.entry := by
  show ((self.checkExpired now k).cache.get k).map CacheEntry.entry = _
  unfold checkExpired
  cases hget : self.cache.get k with
  | none => simp only [hget, Option.map_none, Option.bind_none]
  | some e =>
    show ((if e.exp ≠ 0 ∧ e.exp < now then _ else self).cache.get k).map CacheEntry.entry =
      if e.exp ≠ 0 ∧ e.exp < now then none else some e.entry
    by_cases hexpired : e.exp ≠ 0 ∧ e.exp < now
    · rw [if_pos hexpired, if_pos hexpired, Map.get_delete_self, Option.map_none]
    · rw [if_neg hexpired, if_neg hexpired, hget, Option.map_some]

/-- To look for a key leaves the others as they are. -/
lemma get_checkExpired_of_ne (hne : key ≠ k) :
    (self.checkExpired now k).cache.get key = self.cache.get key := by
  unfold checkExpired
  split
  · split
    · exact Map.get_delete_of_ne hne
    · rfl
  · rfl

/-- Without a limit, an addition leaves the other keys as they are. -/
lemma get_add_of_ne (hlimit : self.limit = none) (hne : key ≠ k) :
    (self.add now k v).cache.get key = self.cache.get key := by
  unfold add
  rw [if_neg (by rw [hlimit]; simp)]
  exact Map.get_set_of_ne hne

/-- What is there after the first entry was dropped was there before. -/
lemma of_get_dropFirst (h : self.dropFirst.cache.get key = some e) :
    self.cache.get key = some e := by
  unfold dropFirst at h
  split at h
  · exact h
  · exact (Map.get_of_get_delete h).2

/-- An entry after an addition is the new one or was there under another key. -/
theorem of_get_add (h : (self.add now k v).cache.get key = some e) :
    (key = k ∧ e = ⟨now + self.ttlMs, v⟩) ∨ (key ≠ k ∧ self.cache.get key = some e) := by
  unfold add at h
  rcases Map.of_get_set h with hnew | ⟨hne, hold⟩
  · exact .inl hnew
  · refine .inr ⟨hne, ?_⟩
    by_cases hfull : self.limit = some self.cache.size
    · rw [if_pos hfull] at hold
      exact of_get_dropFirst hold
    · rwa [if_neg hfull] at hold

@[simp] lemma ttlMs_add : (self.add now k v).ttlMs = self.ttlMs := by
  unfold add dropFirst
  by_cases hfull : self.limit = some self.cache.size
  · simp only [if_pos hfull]
    split <;> rfl
  · simp only [if_neg hfull]

/-- Only the first entry goes. -/
lemma entries_dropFirst : self.dropFirst.cache.entries = self.cache.entries.tail := by
  have hnodup := self.cache.nodup_keys
  unfold dropFirst
  split
  · rename_i h
    rw [h, List.tail_nil]
  · rename_i first value rest h
    show self.cache.entries.filter (fun entry => entry.1 ≠ first) = _
    rw [Map.keys, h, List.map_cons, List.nodup_cons] at hnodup
    rw [h, List.tail_cons, List.filter_cons_of_neg (by simp), List.filter_eq_self]
    intro entry hentry
    apply decide_eq_true
    rintro rfl
    exact hnodup.1 (List.mem_map.mpr ⟨entry, hentry, rfl⟩)

lemma keys_dropFirst : self.dropFirst.cache.keys = self.cache.keys.tail := by
  rw [Map.keys, entries_dropFirst, Map.keys, List.map_tail]

@[simp] lemma limit_add : (self.add now k v).limit = self.limit := by
  unfold add dropFirst
  by_cases hfull : self.limit = some self.cache.size
  · simp only [if_pos hfull]
    split <;> rfl
  · simp only [if_neg hfull]

/-- The keys after an addition: a full cache loses its first one, whether or not the key is there.
-/
lemma keys_add : (self.add now k v).cache.keys =
    let room := if self.limit = some self.cache.size then self.cache.keys.tail else self.cache.keys
    if k ∈ room then room else room ++ [k] := by
  unfold add
  simp only [Map.keys_set]
  split
  · rw [keys_dropFirst]
  · rfl

/-- A removed entry is gone, the others stay. -/
theorem of_get_rm (h : (self.rm k).2.cache.get key = some e) :
    key ≠ k ∧ self.cache.get key = some e := Map.get_of_get_delete h

end CacheFactory

end PointNetwork
