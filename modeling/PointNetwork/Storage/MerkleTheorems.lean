import PointNetwork.HashTree
import PointNetwork.Storage.ChunkInfo

/-!
# What the root of a Merkle tree says about its leaves

`merkle` pairs an odd node out with itself, so that a list and the list with its tail
repeated (`complete`) have one root. When the digest has no collision on the data of the two
trees, that is all that a root leaves open: `root_binds_iff`.
-/

namespace PointNetwork.Storage

open Js

/-! ## What is digested -/

/-- The data of a parent; the first level above the leaves has a zero byte in front. -/
def pairData (initialIteration : Bool) (left right : Bytes) : Bytes :=
  if initialIteration then 0x00 :: (left ++ right) else left ++ right

/-- The data that `derive` digests. -/
def deriveData (initialIteration : Bool) : List Bytes → List Bytes
  | [] => []
  | [left] => [pairData initialIteration left left]
  | left :: right :: rest =>
    pairData initialIteration left right :: deriveData initialIteration rest

/-- The data that `merkle` digests above a level. -/
def merkleDataAbove (digestFn : Bytes → Bytes) : ℕ → Bool → List Bytes → List Bytes
  | 0, _, _ => []
  | fuel + 1, initialIteration, level =>
    let next := derive digestFn initialIteration level
    deriveData initialIteration level ++
      if next.length > 1 then merkleDataAbove digestFn fuel false next else []

/-- The data that `merkle` digests. -/
def merkleData (digestFn : Bytes → Bytes) (values : List Bytes) : List Bytes :=
  merkleDataAbove digestFn (values.length + 1) true values

/-- No two of the given byte strings have one digest. No function has this property on all
strings: its digests are 32 bytes long. -/
def CollisionFree (digestFn : Bytes → Bytes) (strings : List Bytes) : Prop :=
  ∀ x ∈ strings, ∀ y ∈ strings, digestFn x = digestFn y → x = y

instance (digestFn : Bytes → Bytes) (strings : List Bytes) :
    Decidable (CollisionFree digestFn strings) :=
  inferInstanceAs (Decidable (∀ x ∈ strings, ∀ y ∈ strings, _))

/-- The leaves with the odd node out of every level repeated, leaves and all. -/
def complete (values : List Bytes) : List Bytes :=
  (HashTree.grow (values.length + 1) (values.map .leaf)).flatMap HashTree.leaves

example : complete [[1], [2], [3], [4], [5]] =
    [[1], [2], [3], [4], [5], [5], [5], [5]] := by decide

/-- The data of a pair of digests is not that of another pair. -/
lemma pairData_inj {i j : Bool} {a b c d : Bytes} (ha : a.length = 32) (hb : b.length = 32)
    (hc : c.length = 32) (hd : d.length = 32) (he : pairData i a b = pairData j c d) :
    i = j ∧ a = c ∧ b = d := by
  have hlen := congrArg List.length he
  have hac : a.length = c.length := ha.trans hc.symm
  -- 65 bytes on the lowest level, 64 on the others
  cases i <;> cases j <;>
    simp only [pairData, if_true, Bool.false_eq_true, if_false, List.length_cons,
      List.length_append] at he hlen
  · exact ⟨rfl, List.append_inj he hac⟩
  · omega
  · omega
  · exact ⟨rfl, List.append_inj (List.cons.inj he).2 hac⟩

/-! ## The levels are those of a tree -/

section Levels

variable (H : HashFn)

/-- The root value of a tree of hashes. -/
abbrev treeValue (t : HashTree Bytes) : Bytes := t.value H.digest pairData

/-- What is digested for the root value. -/
abbrev treeData (t : HashTree Bytes) : List Bytes := t.data H.digest pairData

/-- `derive` computes the values of the parents. -/
lemma derive_map_treeValue {h : ℕ} {ts : List (HashTree Bytes)} (hts : ∀ t ∈ ts, t.Perfect h) :
    derive H.digest (decide (h = 0)) (ts.map (treeValue H))
      = (HashTree.pairUp ts).map (treeValue H) := by
  induction ts using HashTree.pairUp.induct with
  | case1 => rfl
  | case2 t =>
    simp only [HashTree.pairUp, List.map_cons, List.map_nil, derive, treeValue, HashTree.value,
      pairData, (hts t (by simp)).isLeaf_eq]
  | case3 left right rest ih =>
    have hrest := ih fun t ht => hts t (by simp [ht])
    simp only [HashTree.pairUp, List.map_cons, derive, hrest, treeValue, HashTree.value,
      pairData, (hts left (by simp)).isLeaf_eq]

/-- What the parents digest is what their children digest and what `derive` does. -/
lemma data_pairUp_subset {h : ℕ} {ts : List (HashTree Bytes)} (hts : ∀ t ∈ ts, t.Perfect h) :
    (HashTree.pairUp ts).flatMap (treeData H) ⊆
      ts.flatMap (treeData H) ++ deriveData (decide (h = 0)) (ts.map (treeValue H)) := by
  induction ts using HashTree.pairUp.induct with
  | case1 => exact List.nil_subset _
  | case2 t =>
    intro x hx
    simp only [HashTree.pairUp, List.flatMap_cons, List.flatMap_nil, treeData, HashTree.data,
      List.append_nil, List.mem_cons, List.mem_append, or_self,
      (hts t (by simp)).isLeaf_eq] at hx
    simp only [List.flatMap_cons, List.flatMap_nil, List.append_nil, List.map_cons, List.map_nil,
      deriveData, List.mem_append, List.mem_singleton]
    exact hx.symm
  | case3 left right rest ih =>
    have hrest := ih fun t ht => hts t (by simp [ht])
    intro x hx
    simp only [HashTree.pairUp, List.flatMap_cons, treeData, HashTree.data, List.mem_cons,
      List.mem_append, (hts left (by simp)).isLeaf_eq] at hx
    simp only [List.flatMap_cons, List.map_cons, deriveData, List.mem_append, List.mem_cons]
    rcases hx with (hx | hx | hx) | hx
    · exact Or.inr (Or.inl hx)
    · exact Or.inl (Or.inl hx)
    · exact Or.inl (Or.inr (Or.inl hx))
    · rcases List.mem_append.mp (hrest hx) with hx | hx
      · exact Or.inl (Or.inr (Or.inr hx))
      · exact Or.inr (Or.inr hx)

/-- The last of the levels above is the value of the tree that grows. -/
lemma getLast_merkleAbove {fuel h : ℕ} {ts : List (HashTree Bytes)} (hfuel : ts.length ≤ fuel)
    (hne : ts ≠ []) (hts : ∀ t ∈ ts, t.Perfect h) :
    (merkleAbove H.digest fuel (decide (h = 0)) (ts.map (treeValue H))).getLast?
      = ((HashTree.grow fuel ts).map (treeValue H)).getLast? := by
  induction fuel generalizing h ts with
  | zero =>
    have := List.length_pos_iff.mpr hne
    omega
  | succ fuel ih =>
    have hpos := List.length_pos_iff.mpr hne
    have hlen := HashTree.length_pairUp ts
    rw [merkleAbove, HashTree.grow, derive_map_treeValue H hts, List.length_map]
    split
    · rename_i hmore
      have hne' : HashTree.pairUp ts ≠ [] := by
        apply List.ne_nil_of_length_pos
        omega
      have hnext := ih (by omega) hne' (HashTree.perfect_pairUp hts)
      rw [decide_eq_false (Nat.succ_ne_zero h)] at hnext
      rcases HashTree.exists_grow_eq (by omega : (HashTree.pairUp ts).length ≤ fuel) hne'
        (HashTree.perfect_pairUp hts) with ⟨t, k, ht, -, -⟩
      rw [List.getLast?_append, hnext, ht]
      rfl
    · rw [List.append_nil]

/-- What the trees digest is what `merkle` does above them. -/
lemma data_grow_subset (fuel : ℕ) {h : ℕ} {ts : List (HashTree Bytes)}
    (hts : ∀ t ∈ ts, t.Perfect h) :
    (HashTree.grow fuel ts).flatMap (treeData H) ⊆ ts.flatMap (treeData H) ++
      merkleDataAbove H.digest fuel (decide (h = 0)) (ts.map (treeValue H)) := by
  induction fuel generalizing h ts with
  | zero => exact List.subset_append_left _ _
  | succ fuel ih =>
    have hstep := data_pairUp_subset H hts
    rw [merkleDataAbove, HashTree.grow, derive_map_treeValue H hts, List.length_map]
    split
    · have hnext := ih (HashTree.perfect_pairUp hts)
      rw [decide_eq_false (Nat.succ_ne_zero h)] at hnext
      intro x hx
      rw [← List.append_assoc]
      rcases List.mem_append.mp (hnext hx) with hx | hx
      · exact List.mem_append_left _ (hstep hx)
      · exact List.mem_append_right _ hx
    · rw [List.append_nil]
      exact hstep

/-- The tree over a list of leaves: its height, its leaves, its value and its data. -/
lemma exists_tree {values : List Bytes} (hne : values ≠ []) :
    ∃ (t : HashTree Bytes) (k : ℕ), t.Perfect (k + 1) ∧ t.leaves = complete values ∧
      (merkle H.digest values).getLast? = some (treeValue H t) ∧
      treeData H t ⊆ merkleData H.digest values := by
  have hperfect : ∀ t ∈ values.map HashTree.leaf, t.Perfect 0 := by
    intro t ht
    rcases List.mem_map.mp ht with ⟨b, -, rfl⟩
    exact .leaf b
  have hvalues : (values.map HashTree.leaf).map (treeValue H) = values := by
    rw [List.map_map]
    exact List.map_id values
  have hne' : values.map HashTree.leaf ≠ [] := by simpa using hne
  have hfuel : (values.map HashTree.leaf).length ≤ values.length + 1 := by simp
  rcases HashTree.exists_grow_eq hfuel hne' hperfect with ⟨t, k, ht, hk, -⟩
  refine ⟨t, k, hk, ?_, ?_, ?_⟩
  · rw [complete, ht, List.flatMap_singleton]
  · have hlast := getLast_merkleAbove H hfuel hne' hperfect
    rw [hvalues, ht] at hlast
    rw [merkle, List.getLast?_append]
    simpa using congrArg (·.or values.getLast?) hlast
  · have hdata := data_grow_subset H (values.length + 1) hperfect
    have hleaves : (values.map HashTree.leaf).flatMap (treeData H) = [] := by
      simp [List.flatMap_eq_nil_iff, HashTree.data]
    rw [hvalues, hleaves, ht, List.flatMap_singleton, List.nil_append] at hdata
    exact hdata

end Levels

/-! ## Completing a list -/

/-- Completing repeats leaves behind the list. -/
lemma prefix_complete (values : List Bytes) : values <+: complete values := by
  have h := HashTree.leaves_prefix_grow (values.length + 1) (values.map HashTree.leaf)
  rw [HashTree.flatMap_leaves_map_leaf] at h
  exact h

/-- The leaves it repeats are in the list. -/
lemma complete_subset (values : List Bytes) : complete values ⊆ values := by
  have h := HashTree.leaves_grow_subset (values.length + 1) (values.map HashTree.leaf)
  rw [HashTree.flatMap_leaves_map_leaf] at h
  exact h

/-- Completing tells lists of one length apart. -/
theorem eq_of_complete_eq {xs ys : List Bytes} (hlen : xs.length = ys.length)
    (he : complete xs = complete ys) : xs = ys := by
  have hx := List.prefix_iff_eq_take.mp (prefix_complete xs)
  have hy := List.prefix_iff_eq_take.mp (prefix_complete ys)
  rw [hx, hy, he, hlen]

/-! ## The root -/

/-- The root of a list is the root of the list with its tail repeated. -/
theorem root_congr (H : HashFn) {xs ys : List Bytes} (hx : xs ≠ []) (hy : ys ≠ [])
    (he : complete xs = complete ys) :
    (merkle H.digest xs).getLast? = (merkle H.digest ys).getLast? := by
  rcases exists_tree H hx with ⟨s, h, hs, hsl, hsv, -⟩
  rcases exists_tree H hy with ⟨t, k, ht, htl, htv, -⟩
  have hst : s = t := hs.eq_of_leaves ht (by rw [hsl, htl, he])
  rw [hsv, htv, hst]

section Binding

variable {H : HashFn} {xs ys : List Bytes}

/-- Without a collision, the root determines the completed list. -/
theorem complete_eq_of_root (hx : xs ≠ []) (hy : ys ≠ [])
    (hxs : ∀ x ∈ xs, x.length = 32) (hys : ∀ y ∈ ys, y.length = 32)
    (hfree : CollisionFree H.digest (merkleData H.digest xs ++ merkleData H.digest ys))
    (he : (merkle H.digest xs).getLast? = (merkle H.digest ys).getLast?) :
    complete xs = complete ys := by
  rcases exists_tree H hx with ⟨s, h, hs, hsl, hsv, hsd⟩
  rcases exists_tree H hy with ⟨t, k, ht, htl, htv, htd⟩
  rw [hsv, htv, Option.some.injEq] at he
  have hsleaves : ∀ b ∈ s.leaves, b.length = 32 := by
    intro b hb
    rw [hsl] at hb
    exact hxs b (complete_subset xs hb)
  have htleaves : ∀ b ∈ t.leaves, b.length = 32 := by
    intro b hb
    rw [htl] at hb
    exact hys b (complete_subset ys hb)
  have hsdata := List.Subset.trans hsd (List.subset_append_left _ (merkleData H.digest ys))
  have htdata := List.Subset.trans htd (List.subset_append_right (merkleData H.digest xs) _)
  have hst : s = t := hs.eq_of_value (P := fun b => b.length = 32) H.length_digest pairData_inj
    hfree ht hsleaves htleaves hsdata htdata he
  rw [← hsl, ← htl, hst]

/-- Lists of one length are bound by the root. -/
theorem eq_of_root_of_length (hlen : xs.length = ys.length) (hx : xs ≠ [])
    (hxs : ∀ x ∈ xs, x.length = 32) (hys : ∀ y ∈ ys, y.length = 32)
    (hfree : CollisionFree H.digest (merkleData H.digest xs ++ merkleData H.digest ys))
    (he : (merkle H.digest xs).getLast? = (merkle H.digest ys).getLast?) : xs = ys := by
  have hy : ys ≠ [] := by
    rw [← List.length_pos_iff] at hx ⊢
    omega
  exact eq_of_complete_eq hlen (complete_eq_of_root hx hy hxs hys hfree he)

/-- The root binds a list of hashes against another exactly when the two are not one list
with its tail repeated. -/
theorem root_binds_iff (hx : xs ≠ []) (hy : ys ≠ [])
    (hxs : ∀ x ∈ xs, x.length = 32) (hys : ∀ y ∈ ys, y.length = 32)
    (hfree : CollisionFree H.digest (merkleData H.digest xs ++ merkleData H.digest ys)) :
    ((merkle H.digest xs).getLast? = (merkle H.digest ys).getLast? → xs = ys) ↔
      (complete xs = complete ys → xs = ys) := by
  constructor
  · intro h he
    exact h (root_congr H hx hy he)
  · intro h he
    exact h (complete_eq_of_root hx hy hxs hys hfree he)

end Binding

/-- A hash function for small concrete trees: a checksum, and zeros. -/
def checksum : HashFn where
  digest b := b.foldl (fun sum x => 3 * sum + x + 7) 0 :: List.replicate 31 0
  length_digest b := by simp

/-- Hashes of one byte, repeated. -/
def hashesOf (bytes : List UInt8) : List Bytes := bytes.map (List.replicate 32)

/-- Two lists of three hashes that differ in the last one have two roots. -/
theorem root_binds_iff_three :
    (merkle checksum.digest (hashesOf [0, 1, 0])).getLast? ≠
      (merkle checksum.digest (hashesOf [0, 1, 1])).getLast? := by
  intro hroot
  have hcomplete : complete (hashesOf [0, 1, 0]) = complete (hashesOf [0, 1, 1]) →
      hashesOf [0, 1, 0] = hashesOf [0, 1, 1] := fun h => absurd h (by decide +kernel)
  have hbinds := (@root_binds_iff checksum (hashesOf [0, 1, 0]) (hashesOf [0, 1, 1]) (by decide)
    (by decide) (by decide) (by decide) (by decide +kernel)).mpr hcomplete hroot
  exact absurd hbinds (by decide)

/-- A file of one chunk and a file of that chunk twice digest the same data to one root. -/
theorem root_not_binding :
    ¬ ∀ (H : HashFn) (xs ys : List Bytes), xs ≠ [] → ys ≠ [] →
      (∀ x ∈ xs, x.length = 32) → (∀ y ∈ ys, y.length = 32) →
      CollisionFree H.digest (merkleData H.digest xs ++ merkleData H.digest ys) →
      (merkle H.digest xs).getLast? = (merkle H.digest ys).getLast? → xs = ys := by
  intro h
  have hbad := h HashFn.firstBytes [List.replicate 32 0]
    [List.replicate 32 0, List.replicate 32 0] (by decide) (by decide) (by decide) (by decide)
    (by decide +kernel) (by decide +kernel)
  exact absurd hbad (by decide)

end PointNetwork.Storage
