import Mathlib.Data.List.Nodup
import Mathlib.Logic.Function.Basic

/-!
# Bounded maps whose entries expire

A map of at most `limit` keys. An entry is found until its time has passed. A key that is added
again keeps its place in the order; for a new key the oldest one makes room. An entry whose time has
passed takes room until somebody looks for it.
-/

/-- For each key, the last time and the value of its latest addition, unless it was removed or
evicted; and the keys that take room, the oldest first. -/
structure TtlMap (K V : Type*) where
  latest : K → Option (ℕ × V)
  order : List K

namespace TtlMap

variable {K V : Type*}

/-- The map without keys. -/
def empty : TtlMap K V := ⟨fun _ => none, []⟩

/-- What is found at a time. -/
def look (map : TtlMap K V) (now : ℕ) (k : K) : Option V :=
  (map.latest k).bind fun entry => if now ≤ entry.1 then some entry.2 else none

variable {map : TtlMap K V} {limit now exp : ℕ} {k key : K} {v : V}

/-- An entry that is over is not found. -/
lemma look_eq_none_of_lt {entry : ℕ × V} (h : map.latest k = some entry) (hlt : entry.1 < now) :
    map.look now k = none := by
  rw [look, h]
  exact if_neg (Nat.not_le.mpr hlt)

/-- An entry that is not over is found. -/
lemma look_of_le {entry : ℕ × V} (h : map.latest k = some entry) (hle : now ≤ entry.1) :
    map.look now k = some entry.2 := by
  rw [look, h]
  exact if_pos hle

variable [DecidableEq K]

/-- The oldest key goes. -/
def evict (map : TtlMap K V) : TtlMap K V :=
  match map.order with
  | [] => map
  | oldest :: order => ⟨Function.update map.latest oldest none, order⟩

/-- A key that is there keeps its place; a new one takes the place of the oldest when the map is
full. -/
def add (limit : ℕ) (map : TtlMap K V) (exp : ℕ) (k : K) (v : V) : TtlMap K V :=
  if map.order.contains k then { map with latest := Function.update map.latest k (some (exp, v)) }
  else
    let room := if map.order.length = limit then map.evict else map
    ⟨Function.update room.latest k (some (exp, v)), room.order ++ [k]⟩

/-- The map without the key. -/
def remove (map : TtlMap K V) (k : K) : TtlMap K V :=
  ⟨Function.update map.latest k none, map.order.filter (· ≠ k)⟩

/-- A key that is not found takes no room any more. -/
def purge (map : TtlMap K V) (now : ℕ) (k : K) : TtlMap K V :=
  match map.look now k with
  | some _ => map
  | none => { map with order := map.order.filter (· ≠ k) }

@[simp] lemma latest_purge : (map.purge now k).latest = map.latest := by
  unfold purge
  split <;> rfl

/-- Only the oldest key loses its entry. -/
lemma latest_evict :
    map.evict.latest key = if map.order.head? = some key then none else map.latest key := by
  unfold evict
  split
  · rename_i h
    simp [h]
  · rename_i oldest order h
    by_cases hkey : key = oldest
    · simp [h, hkey]
    · rw [h, List.head?_cons, if_neg (fun heq => hkey (Option.some.inj heq).symm)]
      exact Function.update_of_ne hkey _ _

lemma order_evict : map.evict.order = map.order.tail := by
  unfold evict
  split
  · rename_i h
    simp [h]
  · rename_i h
    simp [h]

/-- The map does not grow beyond its limit. -/
lemma length_add_le (hlimit : 1 ≤ limit) (hle : map.order.length ≤ limit) :
    (map.add limit exp k v).order.length ≤ limit := by
  unfold add
  split
  · exact hle
  · by_cases hfull : map.order.length = limit
    · simp only [if_pos hfull, List.length_append, List.length_singleton, order_evict,
        List.length_tail]
      omega
    · simp only [if_neg hfull, List.length_append, List.length_singleton]
      omega

lemma latest_add_self : (map.add limit exp k v).latest k = some (exp, v) := by
  unfold add
  split
  · exact Function.update_self _ _ _
  · exact Function.update_self _ _ _

/-- Another key loses its entry only if it is the oldest, for a new key in a full map. -/
lemma latest_add_of_ne (hne : key ≠ k) : (map.add limit exp k v).latest key =
    if k ∉ map.order ∧ map.order.length = limit ∧ map.order.head? = some key then none
    else map.latest key := by
  unfold add
  split
  · rename_i hmem
    rw [List.contains_iff_mem] at hmem
    rw [if_neg (fun h => h.1 hmem)]
    exact Function.update_of_ne hne _ _
  · rename_i hmem
    rw [List.contains_iff_mem] at hmem
    simp only [Function.update_of_ne hne]
    by_cases hfull : map.order.length = limit
    · rw [if_pos hfull, latest_evict]
      simp only [hmem, hfull, not_false_eq_true, true_and]
    · rw [if_neg hfull]
      simp only [hfull, false_and, and_false, if_false]

/-- The order after an addition. -/
lemma order_add : (map.add limit exp k v).order =
    if k ∈ map.order then map.order
    else (if map.order.length = limit then map.order.tail else map.order) ++ [k] := by
  unfold add
  simp only [List.contains_iff_mem]
  split
  · rfl
  · split
    · rw [order_evict]
    · rfl

/-- A key that takes room goes on to do so, or is evicted. -/
lemma mem_order_add (hne : key ≠ k) (hmem : key ∈ map.order) :
    key ∈ (map.add limit exp k v).order ∨ (map.add limit exp k v).latest key = none := by
  rw [order_add, latest_add_of_ne hne]
  split
  · exact .inl hmem
  · rename_i hnew
    by_cases hfull : map.order.length = limit
    · rw [if_pos hfull]
      by_cases hhead : map.order.head? = some key
      · exact .inr (if_pos ⟨hnew, hfull, hhead⟩)
      · left
        apply List.mem_append_left
        cases horder : map.order with
        | nil =>
          rw [horder] at hmem
          cases hmem
        | cons oldest order =>
          rw [horder] at hmem hhead
          rcases List.mem_cons.mp hmem with rfl | hrest
          · exact absurd rfl hhead
          · exact hrest
    · rw [if_neg hfull]
      exact .inl (List.mem_append_left _ hmem)

/-- A key other than the one added that takes room has kept its entry. -/
lemma latest_add_of_mem (hnodup : map.order.Nodup) (hne : key ≠ k)
    (hmem : key ∈ (map.add limit exp k v).order) :
    (map.add limit exp k v).latest key = map.latest key := by
  rw [latest_add_of_ne hne, if_neg]
  rintro ⟨hnew, hfull, hhead⟩
  rw [order_add, if_neg hnew, if_pos hfull] at hmem
  obtain ⟨order, horder⟩ := List.head?_eq_some_iff.mp hhead
  rw [horder, List.nodup_cons] at hnodup
  rw [horder, List.tail_cons] at hmem
  rcases List.mem_append.mp hmem with hrest | hlast
  · exact hnodup.1 hrest
  · exact hne (List.mem_singleton.mp hlast)

end TtlMap
