import Mathlib.Algebra.Order.Group.Nat
import Mathlib.Data.List.Basic
import Mathlib.Data.Nat.Init
import Mathlib.Order.Basic
import Mathlib.Tactic.Common

/-!
# Binary trees of digests over a list

A list is hashed to one value by pairing its elements, level by level, an odd one out being
paired with itself. The shape of that computation is a perfect binary tree (`Perfect`) that
`grow` builds; its leaves are the list with its tail repeated. Two perfect trees with a digest
in common are equal when the function that digests a node has no collision on the data of
their nodes (`Perfect.eq_of_value`).
-/

namespace PointNetwork

/-- A binary tree with its values at the leaves. -/
inductive HashTree (β : Type*)
  | leaf (b : β)
  | node (left right : HashTree β)

namespace HashTree

variable {β γ : Type*}

/-- The values at the leaves, from left to right. -/
def leaves : HashTree β → List β
  | leaf b => [b]
  | node left right => left.leaves ++ right.leaves

@[simp] lemma leaves_leaf (b : β) : (leaf b).leaves = [b] := rfl

@[simp] lemma leaves_node (left right : HashTree β) :
    (node left right).leaves = left.leaves ++ right.leaves := rfl

/-- Every leaf of the tree is at depth `h`. -/
inductive Perfect : ℕ → HashTree β → Prop
  | leaf (b : β) : Perfect 0 (leaf b)
  | node {h : ℕ} {left right : HashTree β} :
    Perfect h left → Perfect h right → Perfect (h + 1) (node left right)

/-- A perfect tree has a power of two of leaves. -/
lemma Perfect.length_leaves {h : ℕ} {t : HashTree β} (ht : t.Perfect h) :
    t.leaves.length = 2 ^ h := by
  induction ht with
  | leaf b => rfl
  | node hl hr ihl ihr =>
    rw [leaves_node, List.length_append, ihl, ihr]
    omega

/-- A perfect tree is determined by its leaves. -/
theorem Perfect.eq_of_leaves {h k : ℕ} {s t : HashTree β} (hs : s.Perfect h) (ht : t.Perfect k)
    (he : s.leaves = t.leaves) : s = t := by
  have hpow : 2 ^ h = 2 ^ k := by
    rw [← hs.length_leaves, ← ht.length_leaves, he]
  have hk : k = h := ((Nat.pow_right_inj (Nat.le_refl 2)).mp hpow).symm
  subst hk
  -- trees of one height: the halves of the list of leaves are the leaves of the halves
  induction hs generalizing t with
  | leaf b =>
    cases ht with
    | leaf c =>
      simp only [leaves_leaf, List.cons.injEq, and_true] at he
      rw [he]
  | node hl hr ihl ihr =>
    cases ht with
    | node hl' hr' =>
      have hlen := hl.length_leaves.trans hl'.length_leaves.symm
      have hsplit := List.append_inj he hlen
      rw [ihl hl' hsplit.1 rfl, ihr hr' hsplit.2 rfl]

/-! ## Growing a tree over a list -/

/-- One level up: neighbours get a parent, and an odd one out is both children of its own. -/
def pairUp : List (HashTree β) → List (HashTree β)
  | [] => []
  | [t] => [node t t]
  | left :: right :: rest => node left right :: pairUp rest

lemma length_pairUp (ts : List (HashTree β)) : (pairUp ts).length = (ts.length + 1) / 2 := by
  induction ts using pairUp.induct with
  | case1 => simp [pairUp]
  | case2 t => simp [pairUp]
  | case3 left right rest ih =>
    simp only [pairUp, List.length_cons, ih]
    omega

/-- Level after level until one tree is left. -/
def grow : ℕ → List (HashTree β) → List (HashTree β)
  | 0, ts => ts
  | fuel + 1, ts => if (pairUp ts).length > 1 then grow fuel (pairUp ts) else pairUp ts

/-- Pairs of perfect trees are perfect, one level higher. -/
lemma perfect_pairUp {h : ℕ} {ts : List (HashTree β)} (hts : ∀ t ∈ ts, t.Perfect h) :
    ∀ t ∈ pairUp ts, t.Perfect (h + 1) := by
  induction ts using pairUp.induct with
  | case1 => intro t ht; simp [pairUp] at ht
  | case2 t =>
    intro u hu
    rw [pairUp, List.mem_singleton] at hu
    subst hu
    exact .node (hts t (by simp)) (hts t (by simp))
  | case3 left right rest ih =>
    intro u hu
    rw [pairUp, List.mem_cons] at hu
    rcases hu with rfl | hu
    · exact .node (hts left (by simp)) (hts right (by simp))
    · apply ih _ u hu
      intro t ht
      exact hts t (by simp [ht])

/-- With a level for every element, one tree is left. -/
theorem exists_grow_eq {fuel : ℕ} {h : ℕ} {ts : List (HashTree β)} (hfuel : ts.length ≤ fuel)
    (hne : ts ≠ []) (hts : ∀ t ∈ ts, t.Perfect h) :
    ∃ t k, grow fuel ts = [t] ∧ t.Perfect (k + 1) ∧ h ≤ k := by
  induction fuel generalizing h ts with
  | zero =>
    have := List.length_pos_iff.mpr hne
    omega
  | succ fuel ih =>
    have hpos := List.length_pos_iff.mpr hne
    have hlen := length_pairUp ts
    rw [grow]
    split
    · rename_i hmore
      have hne' : pairUp ts ≠ [] := by
        apply List.ne_nil_of_length_pos
        omega
      rcases ih (by omega) hne' (perfect_pairUp hts) with ⟨t, k, ht, hk, hle⟩
      exact ⟨t, k, ht, hk, by omega⟩
    · rename_i hone
      have hone' : (pairUp ts).length = 1 := by omega
      rcases List.length_eq_one_iff.mp hone' with ⟨t, ht⟩
      refine ⟨t, h, ht, ?_, Nat.le_refl h⟩
      apply perfect_pairUp hts
      rw [ht]
      exact List.mem_singleton.mpr rfl

/-- Pairing keeps the leaves and repeats some of them at the end. -/
lemma leaves_prefix_pairUp (ts : List (HashTree β)) :
    ts.flatMap leaves <+: (pairUp ts).flatMap leaves := by
  induction ts using pairUp.induct with
  | case1 => exact List.prefix_refl _
  | case2 t =>
    simp only [pairUp, List.flatMap_cons, List.flatMap_nil, List.append_nil, leaves_node]
    exact List.prefix_append _ _
  | case3 left right rest ih =>
    simp only [pairUp, List.flatMap_cons, leaves_node, List.append_assoc]
    exact (List.prefix_append_right_inj _).mpr ((List.prefix_append_right_inj _).mpr ih)

/-- The leaves stay, those that are added come behind them. -/
lemma leaves_prefix_grow (fuel : ℕ) (ts : List (HashTree β)) :
    ts.flatMap leaves <+: (grow fuel ts).flatMap leaves := by
  induction fuel generalizing ts with
  | zero => exact List.prefix_refl _
  | succ fuel ih =>
    rw [grow]
    split
    · exact (leaves_prefix_pairUp ts).trans (ih (pairUp ts))
    · exact leaves_prefix_pairUp ts

/-- The leaves that pairing repeats are leaves. -/
lemma leaves_pairUp_subset (ts : List (HashTree β)) :
    (pairUp ts).flatMap leaves ⊆ ts.flatMap leaves := by
  induction ts using pairUp.induct with
  | case1 => exact List.nil_subset _
  | case2 t => simp [pairUp]
  | case3 left right rest ih =>
    simp only [pairUp, List.flatMap_cons, leaves_node, List.append_assoc]
    intro b hb
    simp only [List.mem_append] at hb ⊢
    exact hb.imp_right (Or.imp_right (@ih b))

/-- The leaves that are added are copies. -/
lemma leaves_grow_subset (fuel : ℕ) (ts : List (HashTree β)) :
    (grow fuel ts).flatMap leaves ⊆ ts.flatMap leaves := by
  induction fuel generalizing ts with
  | zero => exact List.Subset.refl _
  | succ fuel ih =>
    rw [grow]
    split
    · exact List.Subset.trans (ih (pairUp ts)) (leaves_pairUp_subset ts)
    · exact leaves_pairUp_subset ts

/-- The leaves of trees that are leaves. -/
@[simp] lemma flatMap_leaves_map_leaf (bs : List β) : (bs.map leaf).flatMap leaves = bs := by
  induction bs with
  | nil => rfl
  | cons b bs ih => simpa using ih

/-! ## The values of the nodes -/

section Value

variable (digest : γ → β) (encode : Bool → β → β → γ)

/-- Nodes over two leaves are told apart from those above them. -/
def isLeaf : HashTree β → Bool
  | leaf _ => true
  | node _ _ => false

/-- The value of a node is the digest of the encoded values of its children. -/
def value : HashTree β → β
  | leaf b => b
  | node left right => digest (encode left.isLeaf left.value right.value)

/-- What is digested at the nodes of a tree. -/
def data : HashTree β → List γ
  | leaf _ => []
  | node left right =>
    encode left.isLeaf (left.value digest encode) (right.value digest encode)
      :: (left.data ++ right.data)

/-- A perfect tree is a leaf exactly at height zero. -/
lemma Perfect.isLeaf_eq {h : ℕ} {t : HashTree β} (ht : t.Perfect h) :
    t.isLeaf = decide (h = 0) := by
  cases ht with
  | leaf b => rfl
  | node hl hr => rfl

variable {digest encode}

/-- Every value in the tree has a property of the leaves and the digests. -/
lemma value_of_leaves {P : β → Prop} (hdigest : ∀ c, P (digest c)) {t : HashTree β}
    (ht : ∀ b ∈ t.leaves, P b) : P (t.value digest encode) := by
  cases t with
  | leaf b => exact ht b (by simp)
  | node left right => exact hdigest _

/-- A tree of height zero is its value. -/
lemma Perfect.eq_leaf_value {t : HashTree β} (ht : t.Perfect 0) :
    t = .leaf (t.value digest encode) := by
  cases ht with
  | leaf b => rfl

/-- The digested data of a node contain those of its parts. -/
lemma data_subset {S : List γ} {left right : HashTree β}
    (hS : (node left right).data digest encode ⊆ S) :
    left.data digest encode ⊆ S ∧ right.data digest encode ⊆ S := by
  constructor
  · intro x hx
    exact hS (List.mem_cons_of_mem _ (List.mem_append_left _ hx))
  · intro x hx
    exact hS (List.mem_cons_of_mem _ (List.mem_append_right _ hx))

/-- Trees with a root value in common are equal when the digest has no collision on their
nodes, and the encoding of a node none on the values of the trees. -/
theorem Perfect.eq_of_value {P : β → Prop} (hdigest : ∀ c, P (digest c))
    (hencode : ∀ {i j a b c d}, P a → P b → P c → P d →
      encode i a b = encode j c d → i = j ∧ a = c ∧ b = d)
    {S : List γ} (hinj : ∀ x ∈ S, ∀ y ∈ S, digest x = digest y → x = y)
    {h k : ℕ} {s t : HashTree β} (hs : s.Perfect (h + 1)) (ht : t.Perfect (k + 1))
    (hsP : ∀ b ∈ s.leaves, P b) (htP : ∀ b ∈ t.leaves, P b)
    (hsS : s.data digest encode ⊆ S) (htS : t.data digest encode ⊆ S)
    (hv : s.value digest encode = t.value digest encode) : s = t := by
  induction s generalizing h k t with
  | leaf a => cases hs
  | node left right ihl ihr =>
    cases hs with
    | node hl hr =>
      cases ht with
      | node hl' hr' =>
        have hc := hinj _ (hsS List.mem_cons_self) _ (htS List.mem_cons_self) hv
        simp only [leaves_node, List.mem_append, or_imp, forall_and] at hsP htP
        have he := hencode (value_of_leaves hdigest hsP.1) (value_of_leaves hdigest hsP.2)
          (value_of_leaves hdigest htP.1) (value_of_leaves hdigest htP.2) hc
        rw [hl.isLeaf_eq, hl'.isLeaf_eq] at he
        -- the lowest level on one side is the lowest level on the other
        cases h with
        | zero =>
          have hk : k = 0 := by simpa using he.1
          subst hk
          rw [hl.eq_leaf_value, hr.eq_leaf_value, hl'.eq_leaf_value, hr'.eq_leaf_value,
            he.2.1, he.2.2]
        | succ h =>
          have hk : k ≠ 0 := by
            intro hk
            simp [hk] at he
          rcases Nat.exists_eq_succ_of_ne_zero hk with ⟨k', rfl⟩
          have hsub := data_subset hsS
          have hsub' := data_subset htS
          rw [ihl hl hl' hsP.1 htP.1 hsub.1 hsub'.1 he.2.1,
            ihr hr hr' hsP.2 htP.2 hsub.2 hsub'.2 he.2.2]

end Value

end HashTree

end PointNetwork
